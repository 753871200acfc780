import Mathlib.Data.List.TakeWhile
import TimedHttp.Http.OriginForm

/-!
# Targets in absolute form

A target that consists of a scheme, the marker `://`, an authority and a rest does so in one way
only, and its origin form is the rest. Every other target is its own origin form. The same comes out
if the target is scanned as bytes and cut by indices: none of the cuts lies beyond the end or inside
a character, since the bytes that the scan looks for stand for ASCII characters wherever they occur.

## Main definitions

* `AbsoluteForm` — a target taken apart

## Main statements

* `afterAuthority_eq_some_iff` — what the scan over characters finds
* `scanBytes?_bytesOf` — the scan over bytes finds the same
* `originForm_takes_rest` — the origin form of any target
-/

namespace TimedHttp

/-! ## Delimiters -/

theorem isDelimiter_eq_true_iff {c : Char} : isDelimiter c = true ↔ c ∈ ['/', '?', '#'] := by
  simp [isDelimiter, or_assoc]

/-- No delimiter stands in the text. -/
def Undelimited (text : List Char) : Prop := ∀ c ∈ text, isDelimiter c = false

/-- The text is empty, or begins with a delimiter. -/
def Delimited (text : List Char) : Prop := ∀ c ∈ text.head?, isDelimiter c = true

/-- What stands before the first delimiter, and what begins with it. -/
theorem cut_at_delimiter {front rest : List Char} (hfront : Undelimited front)
    (hrest : Delimited rest) :
    (front ++ rest).takeWhile (fun c => !isDelimiter c) = front ∧
      (front ++ rest).dropWhile (fun c => !isDelimiter c) = rest := by
  have hplain : ∀ c ∈ front, (!isDelimiter c) = true := by
    intro c hc
    rw [hfront c hc]
    rfl
  rw [List.takeWhile_append_of_pos hplain, List.dropWhile_append_of_pos hplain]
  cases rest with
  | nil => exact ⟨List.append_nil _, rfl⟩
  | cons c rest =>
    have hc : isDelimiter c = true := hrest c rfl
    simp [hc]

theorem delimited_dropWhile (text : List Char) :
    Delimited (text.dropWhile fun c => !isDelimiter c) := by
  intro c hc
  have hhead := List.head?_dropWhile_not (fun c => !isDelimiter c) text
  rw [Option.mem_def.mp hc] at hhead
  simpa using hhead

theorem undelimited_takeWhile (text : List Char) :
    Undelimited (text.takeWhile fun c => !isDelimiter c) := by
  intro c hc
  simpa using List.mem_takeWhile_imp hc

/-! ## The scan over characters -/

/-- Unless the marker stands here, the scan goes on, and gives up at a delimiter. -/
theorem afterAuthority_cons {c : Char} {rest : List Char}
    (h : c = ':' → ¬ ['/', '/'] <+: rest) :
    afterAuthority (c :: rest) = if isDelimiter c then none else afterAuthority rest := by
  rw [afterAuthority]
  intro rest' hc hrest
  refine h hc ?_
  rw [hrest]
  exact ⟨rest', rfl⟩

theorem afterAuthority_undelimited {scheme rest : List Char} (h : Undelimited scheme) :
    afterAuthority (scheme ++ ':' :: '/' :: '/' :: rest) =
      some (rest.dropWhile fun c => !isDelimiter c) := by
  induction scheme with
  | nil => rfl
  | cons c scheme ih =>
    obtain ⟨hc, hscheme⟩ := List.forall_mem_cons.mp h
    have hmarker : c = ':' → ¬ ['/', '/'] <+: scheme ++ ':' :: '/' :: '/' :: rest := by
      rintro - ⟨tail, htail⟩
      cases scheme with
      | nil => exact absurd (List.cons.inj htail).1 (by decide)
      | cons d scheme =>
        have hd : isDelimiter d = false := hscheme d List.mem_cons_self
        rw [← (List.cons.inj htail).1] at hd
        cases hd
    rw [List.cons_append, afterAuthority_cons hmarker, hc, ih hscheme]
    rfl

/-- **What the scan finds**: the rest of a target in absolute form. -/
theorem afterAuthority_eq_some_iff {text rest : List Char} :
    afterAuthority text = some rest ↔
      ∃ scheme authority, Undelimited scheme ∧ Undelimited authority ∧ Delimited rest ∧
        text = scheme ++ ':' :: '/' :: '/' :: (authority ++ rest) := by
  constructor
  · intro h
    induction text with
    | nil => cases h
    | cons c text ih =>
      by_cases hmarker : c = ':' ∧ ['/', '/'] <+: text
      · obtain ⟨rfl, tail, rfl⟩ := hmarker
        have hrest : tail.dropWhile (fun c => !isDelimiter c) = rest := Option.some.inj h
        refine ⟨[], tail.takeWhile fun c => !isDelimiter c, List.forall_mem_nil _,
          undelimited_takeWhile tail, hrest ▸ delimited_dropWhile tail, ?_⟩
        rw [← hrest, List.takeWhile_append_dropWhile]
        rfl
      · rw [afterAuthority_cons fun hc hrest => hmarker ⟨hc, hrest⟩] at h
        split at h
        · cases h
        next hc =>
          obtain ⟨scheme, authority, hscheme, hauthority, hrest, rfl⟩ := ih h
          refine ⟨c :: scheme, authority, ?_, hauthority, hrest, rfl⟩
          exact List.forall_mem_cons.mpr ⟨Bool.eq_false_iff.mpr hc, hscheme⟩
  · rintro ⟨scheme, authority, hscheme, hauthority, hrest, rfl⟩
    rw [afterAuthority_undelimited hscheme, (cut_at_delimiter hauthority hrest).2]

theorem afterAuthority_of_delimited {text : List Char} (h : Delimited text) :
    afterAuthority text = none := by
  cases text with
  | nil => rfl
  | cons c text =>
    have hc : isDelimiter c = true := h c rfl
    have hcolon : c = ':' → ¬ ['/', '/'] <+: text := by
      rintro rfl
      cases hc
    rw [afterAuthority_cons hcolon, if_pos hc]

/-! ## Bytes of characters

An ASCII character is one byte, and no byte of another character is one of those. So a byte that
stands for an ASCII character is that character, wherever in a text it is found. -/

theorem utf8EncodeChar_ascii {c : Char} (h : c.toNat < 128) :
    String.utf8EncodeChar c = [c.toUInt8] :=
  if_pos (Nat.le_of_lt_succ h)

theorem le_of_mem_utf8EncodeChar {c : Char} {b : UInt8} (h : 128 ≤ c.toNat)
    (hb : b ∈ String.utf8EncodeChar c) : 128 ≤ b := by
  have hlow : ¬ c.val.toNat ≤ 0x7f := Nat.not_le_of_lt h
  have hbyte : ∀ n low high : Nat, 128 ≤ high → high + low ≤ 256 → 0 < low →
      128 ≤ UInt8.ofNat (n % low + high) := by
    intro n low high hhigh hsum hpos
    have := Nat.mod_lt n hpos
    rw [UInt8.le_iff_toNat_le, UInt8.toNat_ofNat', Nat.mod_eq_of_lt (by omega)]
    exact Nat.le_trans hhigh (Nat.le_add_left _ _)
  simp only [String.utf8EncodeChar, if_neg hlow] at hb
  split at hb
  · simp only [List.mem_cons, List.not_mem_nil, or_false] at hb
    obtain rfl | rfl := hb <;> exact hbyte _ _ _ (by decide) (by decide) (by decide)
  · split at hb <;> simp only [List.mem_cons, List.not_mem_nil, or_false] at hb
    · obtain rfl | rfl | rfl := hb <;> exact hbyte _ _ _ (by decide) (by decide) (by decide)
    · obtain rfl | rfl | rfl | rfl := hb <;>
        exact hbyte _ _ _ (by decide) (by decide) (by decide)

/-- The bytes of a text. -/
def bytesOf (text : List Char) : List UInt8 := text.flatMap String.utf8EncodeChar

theorem bytesOf_append (front rest : List Char) :
    bytesOf (front ++ rest) = bytesOf front ++ bytesOf rest :=
  List.flatMap_append

theorem bytesOf_cons (c : Char) (rest : List Char) :
    bytesOf (c :: rest) = String.utf8EncodeChar c ++ bytesOf rest :=
  List.flatMap_cons

theorem bytesOf_cons_ascii {c : Char} (h : c.toNat < 128) (rest : List Char) :
    bytesOf (c :: rest) = c.toUInt8 :: bytesOf rest := by
  rw [bytesOf_cons, utf8EncodeChar_ascii h]
  rfl

theorem toByteArray_toList (text : String) :
    text.toByteArray.data.toList = bytesOf text.toList := by
  rw [← String.utf8Encode_toList]
  exact List.toList_data_toByteArray

theorem utf8ByteSize_ofList (text : List Char) :
    (String.ofList text).utf8ByteSize = (bytesOf text).length := by
  rw [← String.size_toByteArray, ← ByteArray.size_data, ← Array.length_toList, toByteArray_toList,
    String.toList_ofList]

theorem toNat_toUInt8 {c : Char} (h : c.toNat < 128) : c.toUInt8.toNat = c.toNat := by
  rw [Char.toUInt8, UInt32.toNat_toUInt8]
  exact Nat.mod_eq_of_lt (Nat.lt_trans h (by decide))

theorem toUInt8_inj {c d : Char} (hc : c.toNat < 128) (hd : d.toNat < 128) :
    c.toUInt8 = d.toUInt8 ↔ c = d := by
  constructor
  · intro h
    rw [← Char.toNat_inj, ← toNat_toUInt8 hc, ← toNat_toUInt8 hd, h]
  · rintro rfl
    rfl

/-- A byte that stands for an ASCII character stands for it in every character. -/
theorem eq_toUInt8_iff {c d : Char} {b : UInt8} (hd : d.toNat < 128)
    (hb : b ∈ String.utf8EncodeChar c) : b = d.toUInt8 ↔ c = d := by
  by_cases hc : c.toNat < 128
  · rw [utf8EncodeChar_ascii hc, List.mem_singleton] at hb
    rw [hb]
    exact toUInt8_inj hc hd
  · have hwide := le_of_mem_utf8EncodeChar (Nat.le_of_not_lt hc) hb
    constructor
    · rintro rfl
      rw [UInt8.le_iff_toNat_le, toNat_toUInt8 hd] at hwide
      exact absurd hd (Nat.not_lt_of_le hwide)
    · rintro rfl
      exact absurd hd hc

theorem utf8EncodeChar_ne_nil (c : Char) : String.utf8EncodeChar c ≠ [] := by
  rw [← List.length_pos_iff, String.length_utf8EncodeChar]
  exact c.utf8Size_pos

/-- ASCII characters begin a text if their bytes begin its bytes. -/
theorem isPrefixOf_bytesOf (front : List Char) (hfront : ∀ c ∈ front, c.toNat < 128)
    (text : List Char) :
    (front.map Char.toUInt8).isPrefixOf (bytesOf text) = front.isPrefixOf text := by
  induction front generalizing text with
  | nil => rfl
  | cons d front ih =>
    obtain ⟨hd, hfront⟩ := List.forall_mem_cons.mp hfront
    cases text with
    | nil => rfl
    | cons c text =>
      by_cases hdc : c = d
      · rw [hdc, bytesOf_cons_ascii hd, List.map_cons, List.isPrefixOf, List.isPrefixOf, ih hfront,
          beq_self_eq_true, beq_self_eq_true]
      · obtain ⟨b, bytes, hb⟩ := List.exists_cons_of_ne_nil (utf8EncodeChar_ne_nil c)
        have hne : b ≠ d.toUInt8 := fun h =>
          hdc ((eq_toUInt8_iff hd (hb ▸ List.mem_cons_self)).mp h)
        rw [bytesOf_cons, hb, List.map_cons, List.cons_append, List.isPrefixOf, List.isPrefixOf,
          beq_eq_false_iff_ne.mpr hne.symm, beq_eq_false_iff_ne.mpr (Ne.symm hdc)]
        rfl

/-- A byte of a character is a delimiter if the character is. -/
theorem isDelimiterByte_of_mem {c : Char} {b : UInt8} (hb : b ∈ String.utf8EncodeChar c) :
    isDelimiterByte b = isDelimiter c := by
  have hat : ∀ d : Char, d.toNat < 128 → decide (b = d.toUInt8) = decide (c = d) := fun d hd =>
    decide_eq_decide.mpr (eq_toUInt8_iff hd hb)
  rw [isDelimiterByte, hat '/' (by decide), hat '?' (by decide), hat '#' (by decide)]
  rfl

theorem isDelimiterByte_undelimited {text : List Char} (h : Undelimited text) :
    ∀ b ∈ bytesOf text, isDelimiterByte b = false := by
  intro b hb
  obtain ⟨c, hc, hmem⟩ := List.mem_flatMap.mp hb
  rw [isDelimiterByte_of_mem hmem, h c hc]

/-- The first delimiter among the bytes stands behind the bytes of the characters before it. -/
theorem findIdx?_delimiterByte {front rest : List Char} (hfront : Undelimited front)
    (hrest : Delimited rest) :
    (bytesOf (front ++ rest)).findIdx? isDelimiterByte =
      if rest = [] then none else some (bytesOf front).length := by
  rw [bytesOf_append, List.findIdx?_append,
    List.findIdx?_eq_none_iff.mpr (isDelimiterByte_undelimited hfront), Option.none_or]
  cases rest with
  | nil => rfl
  | cons c rest =>
    obtain ⟨b, bytes, hb⟩ := List.exists_cons_of_ne_nil (utf8EncodeChar_ne_nil c)
    have hdelimiter : isDelimiterByte b = true := by
      rw [isDelimiterByte_of_mem (hb ▸ List.mem_cons_self), hrest c rfl]
    rw [bytesOf_cons, hb, List.cons_append, List.findIdx?_cons, if_pos hdelimiter,
      if_neg (List.cons_ne_nil _ _), Option.map_some, Nat.zero_add]

/-! ## Cuts -/

/-- A cut at the end of some of the characters leaves the others. -/
theorem textFrom?_append (front rest : List Char) :
    textFrom? (String.ofList (front ++ rest)) (bytesOf front).length =
      some (String.ofList rest) := by
  have hvalid : String.Pos.Raw.IsValid (String.ofList (front ++ rest))
      ⟨(bytesOf front).length⟩ := by
    rw [String.Pos.Raw.isValid_iff_exists_append]
    refine ⟨String.ofList front, String.ofList rest, String.ofList_append, ?_⟩
    rw [← utf8ByteSize_ofList]
    rfl
  rw [textFrom?, dif_pos hvalid]
  have hsplits : (String.pos _ _ hvalid).Splits (String.ofList front) (String.ofList rest) := by
    refine ⟨String.ofList_append, ?_⟩
    rw [String.offset_pos, ← utf8ByteSize_ofList]
    rfl
  exact congrArg some (hsplits.eq_right (String.Pos.splits _)).symm

theorem bytesFrom?_append (front rest : List Char) :
    bytesFrom? (bytesOf (front ++ rest)) (bytesOf front).length = some (bytesOf rest) := by
  rw [bytesOf_append, bytesFrom?, if_pos (by simp), List.drop_left]

/-! ## The scan over bytes -/

/-- Bytes that are neither a delimiter nor a colon are passed over. -/
theorem scanBytes?_skip {target : String} {bytes skipped : List UInt8}
    (h : ∀ b ∈ skipped, isDelimiterByte b = false ∧ b ≠ ':'.toUInt8) (i : Nat)
    (rest : List UInt8) :
    scanBytes? target bytes i (skipped ++ rest) =
      scanBytes? target bytes (i + skipped.length) rest := by
  induction skipped generalizing i with
  | nil => rfl
  | cons b skipped ih =>
    obtain ⟨⟨hdelimiter, hcolon⟩, hskipped⟩ := List.forall_mem_cons.mp h
    rw [List.cons_append, scanBytes?, hdelimiter, if_neg Bool.false_ne_true, if_neg hcolon,
      ih hskipped, List.length_cons, Nat.add_assoc, Nat.add_comm 1]

theorem length_bytesOf_append (front rest : List Char) :
    (bytesOf (front ++ rest)).length = (bytesOf front).length + (bytesOf rest).length := by
  rw [bytesOf_append, List.length_append]

/-- Behind the marker, the text is cut at the next delimiter, or at its end. -/
theorem scanBytes?_marker (front tail : List Char) :
    scanBytes? (String.ofList (front ++ ':' :: '/' :: '/' :: tail))
        (bytesOf (front ++ ':' :: '/' :: '/' :: tail)) (bytesOf front).length
        (bytesOf (':' :: '/' :: '/' :: tail)) =
      some (String.ofList (tail.dropWhile fun c => !isDelimiter c)) := by
  have hbyte : isDelimiterByte ':'.toUInt8 = false := by decide
  have hcolon : front ++ ':' :: '/' :: '/' :: tail = (front ++ [':']) ++ ('/' :: '/' :: tail) := by
    simp
  have hmarker : front ++ ':' :: '/' :: '/' :: tail = (front ++ [':', '/', '/']) ++ tail := by simp
  have hbehind : bytesFrom? (bytesOf (front ++ ':' :: '/' :: '/' :: tail))
      ((bytesOf front).length + 1) = some (bytesOf ('/' :: '/' :: tail)) := by
    rw [hcolon, ← bytesFrom?_append, length_bytesOf_append front]
    rfl
  have htail : bytesFrom? (bytesOf (front ++ ':' :: '/' :: '/' :: tail))
      ((bytesOf front).length + 3) = some (bytesOf tail) := by
    rw [hmarker, ← bytesFrom?_append, length_bytesOf_append front]
    rfl
  have hslashes : ['/'.toUInt8, '/'.toUInt8].isPrefixOf (bytesOf ('/' :: '/' :: tail)) = true :=
    isPrefixOf_bytesOf ['/', '/'] (by simp) ('/' :: '/' :: tail)
  rw [bytesOf_cons_ascii (by decide), scanBytes?, hbyte, if_neg Bool.false_ne_true, if_pos rfl,
    hbehind]
  simp only [Option.bind_eq_bind, Option.bind_some, if_pos hslashes, htail]
  -- the characters before the next delimiter, then it
  have hcut := findIdx?_delimiterByte (undelimited_takeWhile tail) (delimited_dropWhile tail)
  rw [List.takeWhile_append_dropWhile] at hcut
  rw [hcut]
  by_cases hrest : tail.dropWhile (fun c => !isDelimiter c) = []
  · rw [if_pos hrest, hrest]
  · have htext := textFrom?_append
      (front ++ [':', '/', '/'] ++ tail.takeWhile fun c => !isDelimiter c)
      (tail.dropWhile fun c => !isDelimiter c)
    rw [List.append_assoc, List.takeWhile_append_dropWhile, ← hmarker, length_bytesOf_append,
      length_bytesOf_append front] at htext
    rw [if_neg hrest]
    exact htext

/-- Elsewhere the scan goes on by a whole character, and gives up at a delimiter. -/
theorem scanBytes?_cons {c : Char} {front rest : List Char}
    (h : c = ':' → ¬ ['/', '/'] <+: rest) :
    scanBytes? (String.ofList (front ++ c :: rest)) (bytesOf (front ++ c :: rest))
        (bytesOf front).length (bytesOf (c :: rest)) =
      if isDelimiter c then some (String.ofList (front ++ c :: rest))
      else scanBytes? (String.ofList (front ++ c :: rest)) (bytesOf (front ++ c :: rest))
        (bytesOf (front ++ [c])).length (bytesOf rest) := by
  have hnext : front ++ c :: rest = (front ++ [c]) ++ rest := by simp
  have hindex : (bytesOf (front ++ [c])).length =
      (bytesOf front).length + (String.utf8EncodeChar c).length := by
    rw [length_bytesOf_append, bytesOf_cons, bytesOf, bytesOf, List.flatMap_nil, List.append_nil]
  by_cases hcolon : c = ':'
  · subst hcolon
    have hbehind : bytesFrom? (bytesOf (front ++ ':' :: rest)) ((bytesOf front).length + 1) =
        some (bytesOf rest) := by
      rw [hnext, ← bytesFrom?_append (front ++ [':']) rest, hindex]
      rfl
    have hslashes : ¬ ['/'.toUInt8, '/'.toUInt8].isPrefixOf (bytesOf rest) = true := by
      have hchars := isPrefixOf_bytesOf ['/', '/'] (by simp) rest
      exact fun hbytes => h rfl (List.isPrefixOf_iff_prefix.mp (hchars.symm.trans hbytes))
    have hbyte : isDelimiterByte ':'.toUInt8 = false := by decide
    rw [bytesOf_cons_ascii (by decide), scanBytes?, hbyte, if_neg Bool.false_ne_true, if_pos rfl,
      hbehind, hindex]
    simp only [Option.bind_eq_bind, Option.bind_some, if_neg hslashes]
    rfl
  · by_cases hdelimiter : isDelimiter c = true
    · obtain ⟨b, bytes, hb⟩ := List.exists_cons_of_ne_nil (utf8EncodeChar_ne_nil c)
      have hbyte : isDelimiterByte b = true := by
        rw [isDelimiterByte_of_mem (hb ▸ List.mem_cons_self), hdelimiter]
      rw [bytesOf_cons, hb, List.cons_append, scanBytes?, if_pos hbyte, if_pos hdelimiter]
    · have hskip : ∀ b ∈ String.utf8EncodeChar c,
          isDelimiterByte b = false ∧ b ≠ ':'.toUInt8 := by
        intro b hb
        rw [isDelimiterByte_of_mem hb, Ne, eq_toUInt8_iff (by decide) hb]
        exact ⟨Bool.eq_false_iff.mpr hdelimiter, hcolon⟩
      rw [bytesOf_cons, scanBytes?_skip hskip, hindex, if_neg hdelimiter]

/-- **The scan over bytes** finds what the scan over characters finds, wherever between two
characters it begins, and none of its cuts fails. -/
theorem scanBytes?_bytesOf (front rest : List Char) :
    scanBytes? (String.ofList (front ++ rest)) (bytesOf (front ++ rest)) (bytesOf front).length
        (bytesOf rest) =
      some (match afterAuthority rest with
        | some rest => String.ofList rest
        | none => String.ofList (front ++ rest)) := by
  induction rest generalizing front with
  | nil => rfl
  | cons c rest ih =>
    by_cases hmarker : c = ':' ∧ ['/', '/'] <+: rest
    · obtain ⟨rfl, tail, rfl⟩ := hmarker
      exact scanBytes?_marker front tail
    · have helsewhere : c = ':' → ¬ ['/', '/'] <+: rest := fun hc hrest => hmarker ⟨hc, hrest⟩
      have hnext : front ++ c :: rest = (front ++ [c]) ++ rest := by simp
      rw [afterAuthority_cons helsewhere, scanBytes?_cons helsewhere, hnext, ih]
      split <;> rfl

theorem originSlice?_eq (target : String) : originSlice? target = some (originForm target) := by
  have hscan := scanBytes?_bytesOf [] target.toList
  rw [List.nil_append, String.ofList_toList] at hscan
  rw [originSlice?, toByteArray_toList, originForm]
  exact hscan

/-! ## The origin form -/

/-- **A target taken apart**: a scheme, the marker, an authority, and a rest that is empty or begins
with the delimiter that ended the authority. -/
structure AbsoluteForm (target scheme authority rest : String) : Prop where
  text : target = scheme ++ "://" ++ authority ++ rest
  scheme : ∀ c ∈ ['/', '?', '#'], c ∉ scheme.toList
  authority : ∀ c ∈ ['/', '?', '#'], c ∉ authority.toList
  rest : rest = "" ∨ ∃ c ∈ ['/', '?', '#'], rest.toList.head? = some c

/-- The same, over the characters. -/
theorem absoluteForm_iff {target scheme authority rest : String} :
    AbsoluteForm target scheme authority rest ↔
      Undelimited scheme.toList ∧ Undelimited authority.toList ∧ Delimited rest.toList ∧
        target.toList =
          scheme.toList ++ ':' :: '/' :: '/' :: (authority.toList ++ rest.toList) := by
  have hundelimited : ∀ text : String,
      Undelimited text.toList ↔ ∀ c ∈ ['/', '?', '#'], c ∉ text.toList := by
    intro text
    constructor
    · intro h c hc hmem
      rw [← isDelimiter_eq_true_iff, h c hmem] at hc
      cases hc
    · intro h c hmem
      rw [Bool.eq_false_iff, Ne, isDelimiter_eq_true_iff]
      exact fun hc => h c hc hmem
  have hdelimited : Delimited rest.toList ↔
      rest = "" ∨ ∃ c ∈ ['/', '?', '#'], rest.toList.head? = some c := by
    rw [← String.toList_eq_nil_iff, Delimited]
    cases rest.toList with
    | nil => simp
    | cons c rest => simp [isDelimiter_eq_true_iff]
  have htext : target.toList =
        scheme.toList ++ ':' :: '/' :: '/' :: (authority.toList ++ rest.toList) ↔
      target = scheme ++ "://" ++ authority ++ rest := by
    rw [← String.toList_inj]
    simp
  rw [hundelimited, hundelimited, hdelimited, htext]
  exact ⟨fun h => ⟨h.scheme, h.authority, h.rest, h.text⟩,
    fun ⟨hscheme, hauthority, hrest, htext⟩ => ⟨htext, hscheme, hauthority, hrest⟩⟩

theorem AbsoluteForm.afterAuthority_eq {target scheme authority rest : String}
    (h : AbsoluteForm target scheme authority rest) :
    afterAuthority target.toList = some rest.toList := by
  obtain ⟨hscheme, hauthority, hrest, htext⟩ := absoluteForm_iff.mp h
  exact afterAuthority_eq_some_iff.mpr ⟨_, _, hscheme, hauthority, hrest, htext⟩

theorem exists_absoluteForm {target : String} {rest : List Char}
    (h : afterAuthority target.toList = some rest) :
    ∃ scheme authority, AbsoluteForm target scheme authority (String.ofList rest) := by
  obtain ⟨scheme, authority, hscheme, hauthority, hrest, htext⟩ := afterAuthority_eq_some_iff.mp h
  refine ⟨String.ofList scheme, String.ofList authority, absoluteForm_iff.mpr ?_⟩
  simp only [String.toList_ofList]
  exact ⟨hscheme, hauthority, hrest, htext⟩

/-- The colon of the marker ends nothing, so the first delimiter is the slash behind it; the next
one begins the rest. -/
theorem AbsoluteForm.unique {target scheme authority rest scheme' authority' rest' : String}
    (h : AbsoluteForm target scheme authority rest)
    (h' : AbsoluteForm target scheme' authority' rest') :
    scheme' = scheme ∧ authority' = authority ∧ rest' = rest := by
  obtain ⟨hscheme, hauthority, hrest, htext⟩ := absoluteForm_iff.mp h
  obtain ⟨hscheme', hauthority', hrest', htext'⟩ := absoluteForm_iff.mp h'
  have hcolon : ∀ {text : List Char}, Undelimited text → Undelimited (text ++ [':']) := by
    intro text hplain c hc
    obtain hc | hc := List.mem_append.mp hc
    · exact hplain c hc
    · rw [List.mem_singleton.mp hc]
      decide
  have hslash : ∀ text : List Char, Delimited ('/' :: '/' :: text) := by
    intro text c hc
    cases hc
    rfl
  have hfirst := cut_at_delimiter (hcolon hscheme) (hslash (authority.toList ++ rest.toList))
  have hfirst' := cut_at_delimiter (hcolon hscheme') (hslash (authority'.toList ++ rest'.toList))
  rw [List.append_assoc, List.singleton_append, ← htext] at hfirst
  rw [List.append_assoc, List.singleton_append, ← htext'] at hfirst'
  have hschemes := List.append_cancel_right (hfirst'.1.symm.trans hfirst.1)
  have hbehind := hfirst'.2.symm.trans hfirst.2
  have htails : authority'.toList ++ rest'.toList = authority.toList ++ rest.toList :=
    (List.cons.inj (List.cons.inj hbehind).2).2
  have hsecond := cut_at_delimiter hauthority hrest
  have hsecond' := cut_at_delimiter hauthority' hrest'
  rw [htails] at hsecond'
  exact ⟨String.toList_inj.mp hschemes, String.toList_inj.mp (hsecond'.1.symm.trans hsecond.1),
    String.toList_inj.mp (hsecond'.2.symm.trans hsecond.2)⟩

theorem AbsoluteForm.originForm_eq {target scheme authority rest : String}
    (h : AbsoluteForm target scheme authority rest) : originForm target = rest := by
  rw [originForm, h.afterAuthority_eq]
  exact String.ofList_toList

theorem AbsoluteForm.originForm_rest {target scheme authority rest : String}
    (h : AbsoluteForm target scheme authority rest) : originForm rest = rest := by
  obtain ⟨-, -, hrest, -⟩ := absoluteForm_iff.mp h
  rw [originForm, afterAuthority_of_delimited hrest]

theorem originForm_of_no_absoluteForm {target : String}
    (h : ¬ ∃ scheme authority rest, AbsoluteForm target scheme authority rest) :
    originForm target = target := by
  rw [originForm]
  split
  next rest hafter =>
    obtain ⟨scheme, authority, hform⟩ := exists_absoluteForm hafter
    exact absurd ⟨scheme, authority, _, hform⟩ h
  next => rfl

/-- **The origin form takes the rest.** A target comes apart in one way at most. If it does, its
origin form is the rest, else it is the target. No cut of the scan over bytes fails, the origin form
ends the target, and it is its own origin form. -/
theorem originForm_takes_rest (target : String) :
    (∀ scheme authority rest, AbsoluteForm target scheme authority rest →
      originForm target = rest ∧
        ∀ scheme' authority' rest', AbsoluteForm target scheme' authority' rest' →
          scheme' = scheme ∧ authority' = authority ∧ rest' = rest) ∧
    ((¬ ∃ scheme authority rest, AbsoluteForm target scheme authority rest) →
      originForm target = target) ∧
    originSlice? target = some (originForm target) ∧
    (∃ front, target = front ++ originForm target) ∧
    originForm (originForm target) = originForm target := by
  refine ⟨fun scheme authority rest h => ⟨h.originForm_eq, fun _ _ _ h' => h.unique h'⟩,
    originForm_of_no_absoluteForm, originSlice?_eq target, ?_⟩
  by_cases hform : ∃ scheme authority rest, AbsoluteForm target scheme authority rest
  · obtain ⟨scheme, authority, rest, h⟩ := hform
    rw [h.originForm_eq]
    exact ⟨⟨_, h.text⟩, h.originForm_rest⟩
  · rw [originForm_of_no_absoluteForm hform, originForm_of_no_absoluteForm hform]
    exact ⟨⟨"", String.empty_append.symm⟩, rfl⟩

/-- The theorem at a target with two colons before the marker and a wide character in its
authority. -/
theorem originForm_takes_rest_two_colons :
    AbsoluteForm "a:b://café:80?q=://x" "a:b" "café:80" "?q=://x" ∧
      originForm "a:b://café:80?q=://x" = "?q=://x" := by
  have h : AbsoluteForm "a:b://café:80?q=://x" "a:b" "café:80" "?q=://x" :=
    ⟨by decide, by simp, by simp, .inr (by simp)⟩
  exact ⟨h, ((originForm_takes_rest _).1 _ _ _ h).1⟩

end TimedHttp
