/-!
# Sorted maps

Finite maps kept as lists in strictly increasing order of their keys. The order is part of the
type, so a map has exactly one form: two maps are equal as soon as their look-ups agree
(`SortedMap.ext_get?`), whatever sequence of writes built them.

## Main definitions

* `SortedMap` — the entries and the proof that their keys increase
* `SortedMap.get?`, `SortedMap.update`, `SortedMap.insert`, `SortedMap.extend`
-/

namespace TimedHttp

/-- The keys of a list of entries increase strictly. -/
def KeysIncrease {κ ν : Type} [Ord κ] (entries : List (κ × ν)) : Prop :=
  entries.Pairwise fun a b => compare a.1 b.1 = .lt

/-- **Sorted map**: entries in strictly increasing order of their keys. -/
structure SortedMap (κ ν : Type) [Ord κ] where
  entries : List (κ × ν)
  increasing : KeysIncrease entries

namespace SortedMap

variable {κ ν : Type} [Ord κ]

theorem ext_entries {m n : SortedMap κ ν} (h : m.entries = n.entries) : m = n := by
  cases m; cases n; cases h; rfl

instance [DecidableEq κ] [DecidableEq ν] : DecidableEq (SortedMap κ ν) := fun m n =>
  if h : m.entries = n.entries then isTrue (ext_entries h)
  else isFalse fun e => h (congrArg entries e)

/-- The map without entries. -/
def empty : SortedMap κ ν := ⟨[], List.Pairwise.nil⟩

/-- The value stored at a key of a list of entries. -/
def lookup (k : κ) : List (κ × ν) → Option ν
  | [] => none
  | (k', v) :: rest => if compare k k' = .eq then some v else lookup k rest

/-- The value stored at a key, if there is one. -/
def get? (m : SortedMap κ ν) (k : κ) : Option ν := lookup k m.entries

/-- Puts `f old` at a key of a sorted list, where `old` is what the key held before. -/
def updateEntries (k : κ) (f : Option ν → ν) : List (κ × ν) → List (κ × ν)
  | [] => [(k, f none)]
  | (k', v) :: rest =>
    match compare k k' with
    | .lt => (k, f none) :: (k', v) :: rest
    | .eq => (k, f (some v)) :: rest
    | .gt => (k', v) :: updateEntries k f rest

theorem fst_mem_updateEntries {k : κ} {f : Option ν → ν} {l : List (κ × ν)} {e : κ × ν}
    (h : e ∈ updateEntries k f l) : e.1 = k ∨ e ∈ l := by
  induction l with
  | nil => simp_all [updateEntries]
  | cons head rest ih =>
    simp only [updateEntries] at h
    split at h
    · rcases List.mem_cons.mp h with rfl | h
      · exact .inl rfl
      · exact .inr h
    · rcases List.mem_cons.mp h with rfl | h
      · exact .inl rfl
      · exact .inr (List.mem_cons_of_mem _ h)
    · rcases List.mem_cons.mp h with rfl | h
      · exact .inr List.mem_cons_self
      · exact (ih h).imp_right (List.mem_cons_of_mem _)

variable [Std.TransOrd κ] [Std.LawfulEqOrd κ]

theorem keysIncrease_updateEntries (k : κ) (f : Option ν → ν) {l : List (κ × ν)}
    (h : KeysIncrease l) : KeysIncrease (updateEntries k f l) := by
  induction l with
  | nil => exact List.pairwise_singleton _ _
  | cons head rest ih =>
    obtain ⟨k', v⟩ := head
    have hhead := (List.pairwise_cons.mp h).1
    have hrest := (List.pairwise_cons.mp h).2
    simp only [updateEntries]
    split
    next hlt =>
      refine List.pairwise_cons.mpr ⟨fun e he => ?_, h⟩
      rcases List.mem_cons.mp he with rfl | he
      · exact hlt
      · exact Std.TransCmp.lt_trans hlt (hhead e he)
    next heq =>
      have : k = k' := Std.LawfulEqCmp.eq_of_compare heq
      subst this
      exact List.pairwise_cons.mpr ⟨hhead, hrest⟩
    next hgt =>
      refine List.pairwise_cons.mpr ⟨fun e he => ?_, ih hrest⟩
      rcases fst_mem_updateEntries he with hk | he
      · rw [show (k', v).1 = k' from rfl, hk]
        exact Std.OrientedCmp.lt_of_gt hgt
      · exact hhead e he

/-- Puts `f old` at a key, where `old` is what the key held before. -/
def update (m : SortedMap κ ν) (k : κ) (f : Option ν → ν) : SortedMap κ ν :=
  ⟨updateEntries k f m.entries, keysIncrease_updateEntries k f m.increasing⟩

/-- Puts a value at a key; a value already there is replaced. -/
def insert (m : SortedMap κ ν) (k : κ) (v : ν) : SortedMap κ ν :=
  m.update k fun _ => v

/-- Writes a list of entries one after the other. -/
def insertAll (m : SortedMap κ ν) (entries : List (κ × ν)) : SortedMap κ ν :=
  entries.foldl (fun m e => m.insert e.1 e.2) m

/-- Writes every entry of `other` over `m`. -/
def extend (m other : SortedMap κ ν) : SortedMap κ ν :=
  m.insertAll other.entries

/-- The map of a list of entries, in which the last entry of a key wins. -/
def ofList (entries : List (κ × ν)) : SortedMap κ ν :=
  empty.insertAll entries

/-- The number of keys. -/
def size (m : SortedMap κ ν) : Nat := m.entries.length

omit [Std.TransOrd κ] [Std.LawfulEqOrd κ] in
theorem get?_empty (k : κ) : (empty : SortedMap κ ν).get? k = none := rfl

omit [Std.TransOrd κ] [Std.LawfulEqOrd κ] in
theorem lookup_eq_none {k : κ} {l : List (κ × ν)} (h : ∀ e ∈ l, compare k e.1 ≠ .eq) :
    lookup k l = none := by
  induction l with
  | nil => rfl
  | cons head rest ih =>
    simp only [lookup, if_neg (h head List.mem_cons_self)]
    exact ih fun e he => h e (List.mem_cons_of_mem _ he)

theorem lookup_updateEntries [DecidableEq κ] (k k' : κ) (f : Option ν → ν) {l : List (κ × ν)}
    (h : KeysIncrease l) :
    lookup k' (updateEntries k f l) = if k' = k then some (f (lookup k l)) else lookup k' l := by
  induction l with
  | nil =>
    simp only [updateEntries, lookup, Std.compare_eq_iff_eq]
  | cons head rest ih =>
    obtain ⟨j, v⟩ := head
    have hhead := (List.pairwise_cons.mp h).1
    have hrest := (List.pairwise_cons.mp h).2
    simp only [updateEntries]
    split
    next hlt =>
      have hne : k ≠ j := fun e => by
        subst e; rw [Std.compare_self] at hlt; cases hlt
      have hnone : lookup k rest = none := lookup_eq_none fun e he => by
        rw [Std.TransCmp.lt_trans hlt (hhead e he)]; exact Ordering.noConfusion
      simp only [lookup, Std.compare_eq_iff_eq, if_neg hne, hnone]
    next heq =>
      have : k = j := Std.LawfulEqCmp.eq_of_compare heq
      subst this
      by_cases hk : k' = k <;> simp [lookup, hk]
    next hgt =>
      have hne : k ≠ j := fun e => by
        subst e; rw [Std.compare_self] at hgt; cases hgt
      simp only [lookup, Std.compare_eq_iff_eq, ih hrest, if_neg hne]
      by_cases hk : k' = k
      · subst hk; simp [hne]
      · simp [hk]

theorem get?_update [DecidableEq κ] (m : SortedMap κ ν) (k k' : κ) (f : Option ν → ν) :
    (m.update k f).get? k' = if k' = k then some (f (m.get? k)) else m.get? k' :=
  lookup_updateEntries k k' f m.increasing

/-- The update of a key that has a value changes that value where it stands. -/
theorem entries_update_of_get? [DecidableEq κ] {m : SortedMap κ ν} {k : κ} {v : ν}
    (h : m.get? k = some v) (f : Option ν → ν) :
    (m.update k f).entries = m.entries.map fun e => if e.1 = k then (e.1, f (some e.2)) else e := by
  obtain ⟨l, hl⟩ := m
  show updateEntries k f l = _
  have hlookup : lookup k l = some v := h
  clear h
  induction l with
  | nil => cases hlookup
  | cons head rest ih =>
    obtain ⟨k', w⟩ := head
    obtain ⟨hhead, hrest⟩ := List.pairwise_cons.mp hl
    simp only [updateEntries, lookup] at hlookup ⊢
    split
    next hlt =>
      -- the key would have to come later, but all later ones are greater still
      rw [if_neg (by rw [hlt]; exact Ordering.noConfusion)] at hlookup
      have hnone : lookup k rest = none := lookup_eq_none fun e he => by
        rw [Std.TransCmp.lt_trans hlt (hhead e he)]
        exact Ordering.noConfusion
      cases hnone.symm.trans hlookup
    next heq =>
      obtain rfl : k = k' := Std.LawfulEqCmp.eq_of_compare heq
      have hsame : rest.map (fun e => if e.1 = k then (e.1, f (some e.2)) else e) = rest := by
        refine (List.map_congr_left fun e he => if_neg fun hk => ?_).trans rest.map_id
        have hlt := hhead e he
        rw [show (e.1 : κ) = k from hk, Std.compare_self] at hlt
        cases hlt
      rw [List.map_cons, if_pos rfl, hsame]
    next hgt =>
      have hne : ¬ compare k k' = .eq := by rw [hgt]; exact Ordering.noConfusion
      rw [if_neg hne] at hlookup
      have hother : ¬ k' = k := fun hk => hne (by rw [hk]; exact Std.compare_self)
      rw [List.map_cons, if_neg hother, ih hrest hlookup]

theorem get?_insert [DecidableEq κ] (m : SortedMap κ ν) (k k' : κ) (v : ν) :
    (m.insert k v).get? k' = if k' = k then some v else m.get? k' :=
  get?_update m k k' fun _ => v

/-- The value written last at a key, when entries are written one after the other. -/
def lastWritten [DecidableEq κ] (k : κ) (entries : List (κ × ν)) : Option ν :=
  (entries.reverse.find? fun e => e.1 = k).map Prod.snd

omit [Ord κ] [Std.TransOrd κ] [Std.LawfulEqOrd κ] in
theorem lastWritten_append [DecidableEq κ] (k : κ) (earlier later : List (κ × ν)) :
    lastWritten k (earlier ++ later) = (lastWritten k later).or (lastWritten k earlier) := by
  simp only [lastWritten, List.reverse_append, List.find?_append, Option.map_or]

omit [Ord κ] [Std.TransOrd κ] [Std.LawfulEqOrd κ] in
theorem lastWritten_singleton [DecidableEq κ] (k : κ) (e : κ × ν) :
    lastWritten k [e] = if e.1 = k then some e.2 else none := by
  by_cases hk : e.1 = k <;> simp [lastWritten, hk]

omit [Ord κ] [Std.TransOrd κ] [Std.LawfulEqOrd κ] in
theorem lastWritten_cons [DecidableEq κ] (k : κ) (e : κ × ν) (entries : List (κ × ν)) :
    lastWritten k (e :: entries) =
      (lastWritten k entries).or (if e.1 = k then some e.2 else none) := by
  rw [← lastWritten_singleton]
  exact lastWritten_append k [e] entries

omit [Ord κ] [Std.TransOrd κ] [Std.LawfulEqOrd κ] in
theorem mem_of_lastWritten [DecidableEq κ] {k : κ} {v : ν} {entries : List (κ × ν)}
    (h : lastWritten k entries = some v) : (k, v) ∈ entries := by
  obtain ⟨⟨k', v'⟩, hfound, rfl⟩ := Option.map_eq_some_iff.mp h
  have hk : k' = k := by simpa using List.find?_some hfound
  rw [← hk]
  exact List.mem_reverse.mp (List.mem_of_find?_eq_some hfound)

omit [Ord κ] [Std.TransOrd κ] [Std.LawfulEqOrd κ] in
theorem lastWritten_eq_none_iff [DecidableEq κ] {k : κ} {entries : List (κ × ν)} :
    lastWritten k entries = none ↔ ∀ e ∈ entries, e.1 ≠ k := by
  simp [lastWritten, List.find?_eq_none]

omit [Ord κ] [Std.TransOrd κ] [Std.LawfulEqOrd κ] in
theorem isSome_lastWritten_iff [DecidableEq κ] {k : κ} {entries : List (κ × ν)} :
    (lastWritten k entries).isSome ↔ k ∈ entries.map Prod.fst := by
  simp [lastWritten, Option.isSome_map]

/-- **What was written last is found**, and under other keys what was there before. -/
theorem get?_insertAll_eq [DecidableEq κ] (m : SortedMap κ ν) (entries : List (κ × ν)) (k : κ) :
    (m.insertAll entries).get? k = (lastWritten k entries).or (m.get? k) := by
  induction entries generalizing m with
  | nil => rfl
  | cons e entries ih =>
    have hinsert : (m.insertAll (e :: entries)).get? k =
        ((m.insert e.1 e.2).insertAll entries).get? k := rfl
    rw [hinsert, ih, get?_insert, lastWritten_cons]
    cases lastWritten k entries with
    | some v => rfl
    | none => by_cases hk : k = e.1 <;> simp [hk, eq_comm]

theorem get?_ofList [DecidableEq κ] (entries : List (κ × ν)) (k : κ) :
    (ofList entries).get? k = lastWritten k entries := by
  rw [ofList, get?_insertAll_eq, get?_empty, Option.or_none]

theorem isSome_get?_ofList_iff [DecidableEq κ] {entries : List (κ × ν)} {k : κ} :
    ((ofList entries).get? k).isSome ↔ k ∈ entries.map Prod.fst := by
  rw [get?_ofList, isSome_lastWritten_iff]

/-- Of entries with increasing keys, each is found after they were written. -/
theorem get?_insertAll [DecidableEq κ] (m : SortedMap κ ν) {l : List (κ × ν)}
    (h : KeysIncrease l) (k : κ) : (m.insertAll l).get? k = (lookup k l).or (m.get? k) := by
  induction l generalizing m with
  | nil => rfl
  | cons head rest ih =>
    obtain ⟨j, v⟩ := head
    have hhead := (List.pairwise_cons.mp h).1
    have hrest := (List.pairwise_cons.mp h).2
    have hinsert : (m.insertAll ((j, v) :: rest)).get? k = ((m.insert j v).insertAll rest).get? k :=
      rfl
    rw [hinsert, ih _ hrest, get?_insert]
    by_cases hk : k = j
    · subst hk
      have hnone : lookup k rest = none := lookup_eq_none fun e he => by
        rw [hhead e he]; exact Ordering.noConfusion
      simp [lookup, hnone]
    · simp [lookup, hk]

/-- What is written over a map is found first. -/
theorem get?_extend [DecidableEq κ] (m other : SortedMap κ ν) (k : κ) :
    (m.extend other).get? k = (other.get? k).or (m.get? k) :=
  get?_insertAll m other.increasing k

omit [Std.TransOrd κ] in
theorem lookup_eq_some_iff {k : κ} {v : ν} {l : List (κ × ν)} (h : KeysIncrease l) :
    lookup k l = some v ↔ (k, v) ∈ l := by
  induction l with
  | nil => simp [lookup]
  | cons head rest ih =>
    obtain ⟨j, w⟩ := head
    have hhead := (List.pairwise_cons.mp h).1
    simp only [lookup, List.mem_cons, Prod.mk.injEq]
    split
    next heq =>
      have : k = j := Std.LawfulEqCmp.eq_of_compare heq
      subst this
      refine ⟨fun e => .inl ⟨rfl, (Option.some.inj e).symm⟩, ?_⟩
      rintro (⟨-, rfl⟩ | hm)
      · rfl
      · have := hhead _ hm
        rw [Std.compare_self] at this; cases this
    next hne =>
      rw [ih (List.pairwise_cons.mp h).2]
      exact ⟨.inr, fun hm => hm.resolve_left fun e => hne (e.1 ▸ Std.compare_self)⟩

omit [Std.TransOrd κ] in
theorem get?_eq_some_iff {m : SortedMap κ ν} {k : κ} {v : ν} :
    m.get? k = some v ↔ (k, v) ∈ m.entries :=
  lookup_eq_some_iff m.increasing

omit [Std.TransOrd κ] in
theorem mem_keys_iff {m : SortedMap κ ν} {k : κ} :
    k ∈ m.entries.map Prod.fst ↔ (m.get? k).isSome := by
  simp [Option.isSome_iff_exists, get?_eq_some_iff]

omit [Std.TransOrd κ] in
theorem nodup_keys (m : SortedMap κ ν) : (m.entries.map Prod.fst).Nodup := by
  refine List.pairwise_map.mpr (m.increasing.imp fun {a b} hlt heq => ?_)
  rw [heq, Std.compare_self] at hlt
  cases hlt

/-- Sorted lists with the same members are the same list. -/
theorem entries_eq_of_mem_iff {l r : List (κ × ν)} (hl : KeysIncrease l) (hr : KeysIncrease r)
    (h : ∀ e, e ∈ l ↔ e ∈ r) : l = r := by
  induction l generalizing r with
  | nil =>
    cases r with
    | nil => rfl
    | cons b _ => exact absurd ((h b).mpr List.mem_cons_self) List.not_mem_nil
  | cons a l ih =>
    cases r with
    | nil => exact absurd ((h a).mp List.mem_cons_self) List.not_mem_nil
    | cons b r =>
      have ha := (List.pairwise_cons.mp hl).1
      have hb := (List.pairwise_cons.mp hr).1
      have hab : a = b := by
        rcases List.mem_cons.mp ((h a).mp List.mem_cons_self) with e | har
        · exact e
        rcases List.mem_cons.mp ((h b).mpr List.mem_cons_self) with e | hbl
        · exact e.symm
        have h1 := Std.TransCmp.lt_trans (ha b hbl) (hb a har)
        rw [Std.compare_self] at h1; cases h1
      subst hab
      congr 1
      refine ih (List.pairwise_cons.mp hl).2 (List.pairwise_cons.mp hr).2 fun e => ?_
      have irrefl : compare a.1 a.1 ≠ .lt := by
        rw [Std.compare_self]; exact Ordering.noConfusion
      constructor
      · intro he
        rcases List.mem_cons.mp ((h e).mp (List.mem_cons_of_mem _ he)) with rfl | he'
        · exact absurd (ha _ he) irrefl
        · exact he'
      · intro he
        rcases List.mem_cons.mp ((h e).mpr (List.mem_cons_of_mem _ he)) with rfl | he'
        · exact absurd (hb _ he) irrefl
        · exact he'

/-- Maps whose look-ups agree are equal. -/
theorem ext_get? {m n : SortedMap κ ν} (h : ∀ k, m.get? k = n.get? k) : m = n := by
  refine ext_entries (entries_eq_of_mem_iff m.increasing n.increasing fun e => ?_)
  obtain ⟨k, v⟩ := e
  rw [← get?_eq_some_iff, ← get?_eq_some_iff, h k]

/-- **Equality of maps is agreement of their look-ups.** -/
theorem eq_iff_get? {m n : SortedMap κ ν} : m = n ↔ ∀ k, m.get? k = n.get? k :=
  ⟨fun h _ => h ▸ rfl, ext_get?⟩

theorem empty_extend [DecidableEq κ] (m : SortedMap κ ν) : empty.extend m = m :=
  ext_get? fun k => by simp [get?_extend, get?_empty]

theorem extend_assoc [DecidableEq κ] (l m n : SortedMap κ ν) :
    (l.extend m).extend n = l.extend (m.extend n) :=
  ext_get? fun k => by simp only [get?_extend, Option.or_assoc]

theorem extend_self [DecidableEq κ] (m : SortedMap κ ν) : m.extend m = m :=
  ext_get? fun k => by rw [get?_extend, Option.or_self]

/-- Maps that have no key in common may be written in either order. -/
theorem extend_comm [DecidableEq κ] {m n : SortedMap κ ν}
    (h : ∀ k, m.get? k = none ∨ n.get? k = none) : m.extend n = n.extend m := by
  refine ext_get? fun k => ?_
  rw [get?_extend, get?_extend]
  obtain hk | hk := h k <;> simp [hk]

end SortedMap

end TimedHttp
