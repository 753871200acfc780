import Mathlib.Algebra.Group.Nat.Defs
import TimedHttp.Proofs.AbsoluteForm

/-!
# The order of bytes

UTF-8 keeps the order of texts: if a text comes before another by its characters, it does so by its
bytes. A longer sequence begins with a greater byte, and in two sequences of one length, each byte
after the first holds the next six bits of the character.

## Main statements

* `utf8EncodeChar_before` — one character
* `bytesOf_lt` — texts
-/

namespace TimedHttp

/-- Whatever begins with `us` comes before whatever begins with `vs`. -/
def Before (us vs : List UInt8) : Prop := ∀ xs ys, us ++ xs < vs ++ ys

/-- A smaller first byte decides. -/
theorem before_of_first {a b : Nat} (h : a < b) (hb : b < 256) (us vs : List UInt8) :
    Before (.ofNat a :: us) (.ofNat b :: vs) := by
  intro xs ys
  refine List.cons_lt_cons_iff.mpr (.inl ?_)
  rwa [UInt8.lt_iff_toNat_lt, UInt8.toNat_ofNat', UInt8.toNat_ofNat', Nat.mod_eq_of_lt hb,
    Nat.mod_eq_of_lt (Nat.lt_trans h hb)]

/-- One more byte, for the six lowest bits, decides if the bits above are the same, for which the
bytes before it stand. -/
theorem before_concat {n m : Nat} (bytes : Nat → List UInt8) (h : n < m)
    (habove : n / 64 < m / 64 → Before (bytes (n / 64)) (bytes (m / 64))) :
    Before (bytes (n / 64) ++ [.ofNat (n % 64 + 128)])
      (bytes (m / 64) ++ [.ofNat (m % 64 + 128)]) := by
  intro xs ys
  rw [List.append_assoc, List.append_assoc]
  obtain hlt | ⟨heq, hlow⟩ : n / 64 < m / 64 ∨ n / 64 = m / 64 ∧ n % 64 + 128 < m % 64 + 128 := by
    omega
  · exact habove hlt _ _
  · rw [heq]
    exact List.append_left_lt (before_of_first hlow (by omega) [] [] xs ys)

/-- The bytes of a number: `more` of them hold six bits each, the first holds the bits above. -/
def sequence (size mark : Nat) : Nat → Nat → List UInt8
  | 0, n => [.ofNat (n % size + mark)]
  | more + 1, n => sequence size mark more (n / 64) ++ [.ofNat (n % 64 + 128)]

theorem sequence_before {size mark : Nat} (hsize : size + mark ≤ 256) (more : Nat) {n m : Nat}
    (h : n < m) (hm : m < size * 64 ^ more) :
    Before (sequence size mark more n) (sequence size mark more m) := by
  induction more generalizing n m with
  | zero =>
    rw [Nat.pow_zero, Nat.mul_one] at hm
    refine before_of_first ?_ ?_ [] []
    · rw [Nat.mod_eq_of_lt hm, Nat.mod_eq_of_lt (Nat.lt_trans h hm)]
      exact Nat.add_lt_add_right h mark
    · exact Nat.lt_of_lt_of_le (Nat.add_lt_add_right (Nat.mod_lt m (by omega)) mark) hsize
  | succ more ih =>
    refine before_concat (sequence size mark more) h fun habove => ih habove ?_
    rw [Nat.pow_succ, ← Nat.mul_assoc] at hm
    exact Nat.div_lt_of_lt_mul (Nat.mul_comm .. ▸ hm)

/-- **A smaller character has smaller bytes**, whatever follows them. -/
theorem utf8EncodeChar_before {c d : Char} (h : c < d) :
    Before (String.utf8EncodeChar c) (String.utf8EncodeChar d) := by
  have hlt : c.val.toNat < d.val.toNat := h
  have hd : d.val.toNat < 0x110000 := by
    have := d.valid
    simp only [UInt32.isValidChar, Nat.isValidChar] at this
    omega
  simp only [String.utf8EncodeChar]
  generalize c.val.toNat = n at hlt ⊢
  generalize d.val.toNat = m at hlt hd ⊢
  have htwo := @sequence_before 32 192 (by decide) 1 n m hlt
  have hthree := @sequence_before 16 224 (by decide) 2 n m hlt
  have hfour := @sequence_before 8 240 (by decide) 3 n m hlt
  simp only [sequence, List.cons_append, List.nil_append, Nat.div_div_eq_div_mul, Nat.reduceMul,
    Nat.reducePow] at htwo hthree hfour
  split_ifs
  -- a longer sequence has the greater first byte, and single bytes are compared as such
  all_goals first | omega | exact before_of_first (by omega) (by omega) _ _ | skip
  · exact htwo (by omega)
  · exact hthree (by omega)
  · exact hfour (by omega)

/-- **UTF-8 keeps the order of texts.** -/
theorem bytesOf_lt {text text' : List Char} (h : text < text') : bytesOf text < bytesOf text' := by
  induction text generalizing text' with
  | nil =>
    cases text' with
    | nil => exact absurd h (List.lt_irrefl [])
    | cons d rest =>
      obtain ⟨b, bytes, hb⟩ := List.exists_cons_of_ne_nil (utf8EncodeChar_ne_nil d)
      rw [bytesOf_cons, hb]
      exact List.nil_lt_cons b _
  | cons c rest ih =>
    cases text' with
    | nil => exact absurd h (List.not_lt_nil _)
    | cons d rest' =>
      rw [bytesOf_cons, bytesOf_cons]
      obtain hlt | ⟨rfl, hrest⟩ := List.cons_lt_cons_iff.mp h
      · exact utf8EncodeChar_before hlt _ _
      · exact List.append_left_lt (ih hrest)

/-- Texts in increasing order have increasing bytes. -/
theorem toByteArray_lt {a b : String} (h : compare a b = .lt) :
    a.toByteArray.data.toList < b.toByteArray.data.toList := by
  rw [toByteArray_toList, toByteArray_toList]
  exact bytesOf_lt (String.lt_iff.mp (compareOfLessAndEq_eq_lt.mp h))

end TimedHttp
