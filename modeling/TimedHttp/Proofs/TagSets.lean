import Mathlib.Data.List.Dedup
import TimedHttp.Metric.Timer
import TimedHttp.Proofs.ByteOrder

/-!
# How tags are written

Tags are built by writes: single labels, all labels of other tags, a list of labels collected at
once. Whatever the writes were, what they leave is told by the last write of each key: that is what
a look-up finds, and the tags list every key once, in the order of its bytes. So tags are equal as
soon as their look-ups agree.

## Main statements

* `TagsBuild`, `TimerStep` — the writes by which tags and timers are built
* `Tags.Holds` — what tags hold after some writes
* `Tags.last_write_wins` — every way to build tags, and the laws of writing tags over others
-/

namespace TimedHttp

open SortedMap (lastWritten)

/-! ## What writes leave -/

namespace SortedMap

variable {κ ν : Type} [Ord κ] [Std.LawfulEqOrd κ]

/-- **The size is the number of the keys that were written.** -/
theorem size_eq_of_lastWritten [DecidableEq κ] {m : SortedMap κ ν} {writes : List (κ × ν)}
    (h : ∀ k, m.get? k = lastWritten k writes) :
    m.size = (writes.map Prod.fst).dedup.length := by
  have hkeys : (m.entries.map Prod.fst).Perm (writes.map Prod.fst).dedup :=
    (List.perm_ext_iff_of_nodup m.nodup_keys (List.nodup_dedup _)).mpr fun k => by
      rw [mem_keys_iff, h, isSome_lastWritten_iff, List.mem_dedup]
  rw [size, ← hkeys.length_eq, List.length_map]

end SortedMap

namespace Tags

/-- Labels written out one after the other, each but the first behind a comma. -/
def listed (labels : List (String × String)) : String :=
  String.join (labels.zipIdx.map fun label =>
    (if 0 < label.2 then "," else "") ++ (label.1.1 ++ "=" ++ label.1.2))

theorem intercalate_cons (separator first : String) (rest : List String) :
    separator.intercalate (first :: rest) = first ++ String.join (rest.map (separator ++ ·)) := by
  induction rest generalizing first with
  | nil => simp
  | cons second rest ih =>
    rw [String.intercalate_cons_cons, ih, List.map_cons, String.join_cons, String.append_assoc,
      String.append_assoc]

theorem text_eq_listed (tags : Tags) : tags.text = listed tags.entries := by
  -- behind the first label, every index is positive
  have hbehind : ∀ (labels : List (String × String)) (i : Nat),
      (labels.zipIdx (i + 1)).map (fun label =>
          (if 0 < label.2 then "," else "") ++ (label.1.1 ++ "=" ++ label.1.2)) =
        (labels.map fun label => label.1 ++ "=" ++ label.2).map ("," ++ ·) := by
    intro labels
    induction labels with
    | nil => exact fun _ => rfl
    | cons label labels ih => exact fun i => congrArg (_ :: ·) (ih (i + 1))
  rw [text, listed]
  cases tags.entries with
  | nil => rfl
  | cons first rest =>
    rw [List.map_cons, intercalate_cons, List.zipIdx_cons, List.map_cons, hbehind rest 0,
      String.join_cons]
    simp

/-- **What tags hold after some writes**: for each key what was written last. -/
structure Holds (tags : Tags) (writes : List (String × String)) : Prop where
  /-- a look-up finds what was written last -/
  get? : ∀ key, tags.get? key = lastWritten key writes
  /-- the keys are counted once, however often they were written -/
  size : tags.size = (writes.map Prod.fst).dedup.length
  /-- the labels are listed in increasing order of the bytes of their keys -/
  inByteOrder : tags.entries.Pairwise fun a b =>
    a.1.toByteArray.data.toList < b.1.toByteArray.data.toList
  /-- each key is listed with what was written last -/
  mem_entries : ∀ key value, (key, value) ∈ tags.entries ↔ lastWritten key writes = some value
  /-- the text lists them in the same order, with commas between them -/
  text : tags.text = listed tags.entries

/-- Everything else that tags hold follows from their look-ups. -/
theorem Holds.of_get? {tags : Tags} {writes : List (String × String)}
    (h : ∀ key, tags.get? key = lastWritten key writes) : tags.Holds writes where
  get? := h
  size := SortedMap.size_eq_of_lastWritten h
  inByteOrder := tags.increasing.imp toByteArray_lt
  mem_entries key value := by rw [← h key, SortedMap.get?_eq_some_iff]
  text := tags.text_eq_listed

end Tags

/-! ## Ways to write -/

/-- **Building tags**: the sequences of writes that make them, with those of other tags in them. -/
inductive TagsBuild where
  | new
  /-- one label, inserted in place or by a chained call -/
  | insert (before : TagsBuild) (key value : String)
  /-- all labels of other tags -/
  | extend (before other : TagsBuild)
  /-- all labels at once -/
  | collect (labels : List (String × String))

namespace TagsBuild

/-- The tags that are built. -/
def tags : TagsBuild → Tags
  | new => .empty
  | insert before key value => before.tags.insert key value
  | extend before other => before.tags.extend other.tags
  | collect labels => .ofList labels

/-- The labels that were written, in the order of the writes. -/
def writes : TagsBuild → List (String × String)
  | new => []
  | insert before key value => before.writes ++ [(key, value)]
  | extend before other => before.writes ++ other.writes
  | collect labels => labels

theorem get?_tags (b : TagsBuild) (key : String) : b.tags.get? key = lastWritten key b.writes := by
  induction b with
  | new => rfl
  | insert before k v ih =>
    rw [writes, SortedMap.lastWritten_append, ← ih]
    exact SortedMap.get?_insertAll_eq before.tags [(k, v)] key
  | extend before other ih ihOther =>
    rw [tags, writes, SortedMap.get?_extend, SortedMap.lastWritten_append, ih, ihOther]
  | collect labels => exact SortedMap.get?_ofList labels key

end TagsBuild

/-- **Step in building a timer.** -/
inductive TimerStep where
  | tag (key value : String)
  | tags (build : TagsBuild)
  | description (text : Option String)

namespace TimerStep

/-- The timer after a step. -/
def apply (t : Timer) : TimerStep → Timer
  | tag key value => t.withTag key value
  | tags build => t.withTags build.tags
  | description text => t.withDescription text

/-- The labels that a step writes. -/
def writes : TimerStep → List (String × String)
  | tag key value => [(key, value)]
  | tags build => build.writes
  | description _ => []

/-- A step writes its labels over those of the timer. -/
theorem get?_apply (t : Timer) (step : TimerStep) (key : String) :
    (apply t step).tags.get? key = (lastWritten key step.writes).or (t.tags.get? key) := by
  cases step with
  | tag k v => exact SortedMap.get?_insertAll_eq t.tags [(k, v)] key
  | tags build =>
    rw [apply, Timer.withTags, SortedMap.get?_extend, writes, build.get?_tags]
  | description text => rfl

/-- **All steps** write their labels one after the other. -/
theorem get?_foldl_apply (t : Timer) (steps : List TimerStep) (key : String) :
    (steps.foldl apply t).tags.get? key =
      (lastWritten key (steps.flatMap writes)).or (t.tags.get? key) := by
  induction steps generalizing t with
  | nil => rfl
  | cons step steps ih =>
    rw [List.foldl_cons, ih, get?_apply, List.flatMap_cons, SortedMap.lastWritten_append,
      Option.or_assoc]

end TimerStep

/-! ## The law of writes -/

namespace Tags

/-- **Tags are told by their last writes**, whether they were built by themselves or with a timer.
Tags are equal if their look-ups agree, whatever the writes. To write tags over others is
associative and idempotent, and commutes for tags without a common key. -/
theorem last_write_wins :
    (∀ b : TagsBuild, b.tags.Holds b.writes) ∧
      (∀ (name : String) (steps : List TimerStep),
        (steps.foldl TimerStep.apply (.named name)).tags.Holds
          (steps.flatMap TimerStep.writes)) ∧
      (∀ a b : Tags, a = b ↔ ∀ key, a.get? key = b.get? key) ∧
      (∀ (tags other : Tags) key,
        (tags.extend other).get? key = (other.get? key).or (tags.get? key)) ∧
      (∀ a b c : Tags, (a.extend b).extend c = a.extend (b.extend c)) ∧
      (∀ a b : Tags, a.extend a = a ∧ (a.extend b).extend b = a.extend b) ∧
      ∀ a b : Tags, (∀ key, a.get? key = none ∨ b.get? key = none) → a.extend b = b.extend a := by
  refine ⟨fun b => .of_get? b.get?_tags, fun name steps => .of_get? fun key => ?_,
    fun _ _ => SortedMap.eq_iff_get?, SortedMap.get?_extend, SortedMap.extend_assoc,
    fun a b => ⟨a.extend_self, ?_⟩, fun _ _ => SortedMap.extend_comm⟩
  · exact (TimerStep.get?_foldl_apply _ steps key).trans (Option.or_none ..)
  · rw [SortedMap.extend_assoc, SortedMap.extend_self]

/-- The method and the status of a request are different keys. -/
theorem method_and_status_commute :
    let method : Tags := .ofList [("method", "GET")]
    let status : Tags := .ofList [("status", "200")]
    (∀ key, method.get? key = none ∨ status.get? key = none) ∧
      method.extend status = status.extend method := by
  intro method status
  have hdisjoint : ∀ key, method.get? key = none ∨ status.get? key = none := by
    intro key
    simp only [method, status, SortedMap.get?_ofList, SortedMap.lastWritten_singleton]
    by_cases hk : "method" = key
    · subst hk
      exact .inr (by decide)
    · exact .inl (if_neg hk)
  exact ⟨hdisjoint, last_write_wins.2.2.2.2.2.2 method status hdisjoint⟩

end Tags

/-- The second write of a key replaces the first, and the labels stand in order of their keys. -/
example :
    let b : TagsBuild := .insert (.insert (.insert .new "uri" "/") "status" "200") "status" "500"
    b.tags.size = 2 ∧ b.tags.get? "status" = some "500" ∧ b.tags.text = "status=500,uri=/" := by
  decide

end TimedHttp
