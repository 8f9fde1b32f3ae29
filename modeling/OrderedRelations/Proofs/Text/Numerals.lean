import Mathlib.Data.Int.Notation
import Mathlib.Data.Nat.Notation
import OrderedRelations.Calendar.Date

/-!
# Numerals inside a text

A numeral ends where no digit follows. So where a text begins with a numeral and goes on with
something else, the number and the rest are known from the text.
-/

namespace OrderedRelations.Text

/-- A text that may follow a numeral. -/
def Undigited (cs : List Char) : Prop := ∀ c ∈ cs.head?, c.isDigit = false

@[simp] theorem undigited_nil : Undigited [] := by simp [Undigited]

@[simp] theorem undigited_cons {c : Char} {cs : List Char} :
    Undigited (c :: cs) ↔ c.isDigit = false := by simp [Undigited]

theorem isDigit_of_mem_padded {width n : ℕ} {c : Char} (h : c ∈ Date.padded width n) :
    c.isDigit = true := by
  rcases List.mem_append.mp h with h | h
  · rw [List.eq_of_mem_replicate h]
    rfl
  · exact Nat.isDigit_of_mem_toDigits (by decide) (by decide) h

/-- Zeros in front of a numeral do not change its number. -/
theorem ofDigitChars_padded (width n : ℕ) : Nat.ofDigitChars 10 (Date.padded width n) 0 = n := by
  rw [Date.padded, Nat.ofDigitChars_append, Nat.ofDigitChars_replicate_zero, Nat.mul_zero,
    Nat.ofDigitChars_ten_toDigits]

theorem padded_zero (n : ℕ) : Date.padded 0 n = Nat.toDigits 10 n := by simp [Date.padded]

theorem padded_ne_nil (width n : ℕ) : Date.padded width n ≠ [] :=
  List.append_ne_nil_of_right_ne_nil _ Nat.toDigits_ne_nil

theorem takeWhile_padded_append {width n : ℕ} {rest : List Char} (h : Undigited rest) :
    (Date.padded width n ++ rest).takeWhile Char.isDigit = Date.padded width n := by
  rw [List.takeWhile_append_of_pos fun _ => isDigit_of_mem_padded]
  cases rest with
  | nil => simp
  | cons c cs => simp [undigited_cons.mp h]

/-- A text tells the number that it begins with from what follows. -/
theorem padded_append_inj {width width' m n : ℕ} {rest rest' : List Char} (hrest : Undigited rest)
    (hrest' : Undigited rest')
    (h : Date.padded width m ++ rest = Date.padded width' n ++ rest') :
    m = n ∧ Date.padded width m = Date.padded width' n ∧ rest = rest' := by
  have hdigits : Date.padded width m = Date.padded width' n := by
    rw [← takeWhile_padded_append hrest, h, takeWhile_padded_append hrest']
  refine ⟨?_, hdigits, List.append_cancel_left (hdigits ▸ h)⟩
  rw [← ofDigitChars_padded width m, hdigits, ofDigitChars_padded]

theorem toList_toString_int (n : ℤ) : (toString n).toList =
    if n < 0 then '-' :: Date.padded 0 n.natAbs else Date.padded 0 n.natAbs := by
  cases n with
  | ofNat m => simp [Int.repr, padded_zero]
  | negSucc m => simp [Int.repr, padded_zero, Int.negSucc_lt_zero]

/-- A numeral holds digits, and perhaps a sign. -/
theorem notMem_toString_int {n : ℤ} {c : Char} (hdigit : c.isDigit = false) (hminus : c ≠ '-') :
    c ∉ (toString n).toList := by
  have hdigits : c ∉ Date.padded 0 n.natAbs := fun hc => by
    rw [isDigit_of_mem_padded hc] at hdigit
    cases hdigit
  rw [toList_toString_int]
  split
  · simp [hminus, hdigits]
  · exact hdigits

/-- A numeral without a sign does not begin with one. -/
theorem padded_append_ne_cons {width n : ℕ} {rest cs : List Char} {c : Char}
    (hc : c.isDigit = false) : Date.padded width n ++ rest ≠ c :: cs := by
  intro h
  cases hn : Date.padded width n with
  | nil => exact padded_ne_nil width n hn
  | cons d ds =>
    have hd : d.isDigit = true := isDigit_of_mem_padded (hn ▸ List.mem_cons_self)
    rw [hn, List.cons_append] at h
    rw [(List.cons.inj h).1, hc] at hd
    cases hd

/-- A text tells the whole number that it begins with from what follows. -/
theorem toString_append_inj {m n : ℤ} {rest rest' : List Char} (hrest : Undigited rest)
    (hrest' : Undigited rest')
    (h : (toString m).toList ++ rest = (toString n).toList ++ rest') : m = n ∧ rest = rest' := by
  have hminus : '-'.isDigit = false := rfl
  rw [toList_toString_int, toList_toString_int] at h
  by_cases hm : m < 0 <;> by_cases hn : n < 0
  · rw [if_pos hm, if_pos hn] at h
    obtain ⟨habs, -, heq⟩ := padded_append_inj hrest hrest' (List.cons.inj h).2
    exact ⟨by omega, heq⟩
  · rw [if_pos hm, if_neg hn] at h
    exact absurd h.symm (padded_append_ne_cons hminus)
  · rw [if_neg hm, if_pos hn] at h
    exact absurd h (padded_append_ne_cons hminus)
  · rw [if_neg hm, if_neg hn] at h
    obtain ⟨habs, -, heq⟩ := padded_append_inj hrest hrest' h
    exact ⟨by omega, heq⟩

end OrderedRelations.Text
