import OrderedRelations.Calendar.DateTime
import OrderedRelations.Proofs.Text.Numerals

/-!
# ISO texts tell dates and moments apart

Every number in an ISO text is followed by a mark or by the end, so the text gives the numbers back
one by one, also where the fraction of a second or the offset is left out.
-/

namespace OrderedRelations
open Text (Undigited padded_append_inj)

/-- A number behind a mark, left out when it is zero, is known from a text that cannot go on with
the mark. -/
theorem optional_append_inj {mark : Char} {width m n : ℕ} {rest rest' : List Char}
    (hrest : Undigited rest) (hrest' : Undigited rest') (hmark : rest.head? ≠ some mark)
    (hmark' : rest'.head? ≠ some mark)
    (h : (if m = 0 then [] else mark :: Date.padded width m) ++ rest =
      (if n = 0 then [] else mark :: Date.padded width n) ++ rest') : m = n ∧ rest = rest' := by
  by_cases hm : m = 0 <;> by_cases hn : n = 0
  · rw [if_pos hm, if_pos hn] at h
    exact ⟨hm.trans hn.symm, h⟩
  · rw [if_pos hm, if_neg hn] at h
    exact absurd (congrArg List.head? h) hmark
  · rw [if_neg hm, if_pos hn] at h
    exact absurd (congrArg List.head? h).symm hmark'
  · rw [if_neg hm, if_neg hn] at h
    obtain ⟨heq, -, htail⟩ := padded_append_inj hrest hrest' (List.cons.inj h).2
    exact ⟨heq, htail⟩

theorem undigited_optional {mark : Char} {width n : ℕ} {rest : List Char}
    (hmark : mark.isDigit = false) (hrest : Undigited rest) :
    Undigited ((if n = 0 then [] else mark :: Date.padded width n) ++ rest) := by
  split
  · exact hrest
  · exact Text.undigited_cons.mpr hmark

namespace Date

/-- A text tells the date that it begins with from what follows. -/
theorem isoChars_append_inj {d e : Date} {rest rest' : List Char} (hrest : Undigited rest)
    (hrest' : Undigited rest') (h : d.isoChars ++ rest = e.isoChars ++ rest') :
    d = e ∧ rest = rest' := by
  obtain ⟨year, month, day, hd⟩ := d
  obtain ⟨year', month', day', he⟩ := e
  simp only [isoChars, List.append_assoc, List.cons_append] at h
  obtain ⟨rfl, -, h⟩ := padded_append_inj (by simp) (by simp) h
  obtain ⟨rfl, -, h⟩ := padded_append_inj (by simp) (by simp) (List.cons.inj h).2
  obtain ⟨rfl, -, h⟩ := padded_append_inj hrest hrest' (List.cons.inj h).2
  exact ⟨rfl, h⟩

theorem iso_injective : Function.Injective iso := by
  intro d e h
  have hchars : d.isoChars ++ [] = e.isoChars ++ [] := by simpa using String.ofList_injective h
  exact (isoChars_append_inj Text.undigited_nil Text.undigited_nil hchars).1

end Date

namespace Clock

/-- A clock reading is known from its parts. -/
theorem eq_of_parts {m n : ℕ} (hhour : hour m = hour n) (hminute : minute m = minute n)
    (hsecond : second m = second n) (hmicro : microsecond m = microsecond n) : m = n := by
  simp only [hour, minute, second, microsecond] at *
  omega

/-- A text tells the clock reading that it begins with from what follows, unless that is a
fraction. -/
theorem isoChars_append_inj {m n : ℕ} {rest rest' : List Char} (hrest : Undigited rest)
    (hrest' : Undigited rest') (hpoint : rest.head? ≠ some '.') (hpoint' : rest'.head? ≠ some '.')
    (h : isoChars m ++ rest = isoChars n ++ rest') : m = n ∧ rest = rest' := by
  simp only [isoChars, List.append_assoc, List.cons_append] at h
  obtain ⟨hhour, -, h⟩ := padded_append_inj (by simp) (by simp) h
  obtain ⟨hminute, -, h⟩ := padded_append_inj (by simp) (by simp) (List.cons.inj h).2
  obtain ⟨hsecond, -, h⟩ := padded_append_inj (undigited_optional rfl hrest)
    (undigited_optional rfl hrest') (List.cons.inj h).2
  obtain ⟨hmicro, htail⟩ := optional_append_inj hrest hrest' hpoint hpoint' h
  exact ⟨eq_of_parts hhour hminute hsecond hmicro, htail⟩

end Clock

namespace DateTime

theorem offsetChars_injective : Function.Injective offsetChars := by
  intro m n heq
  have h : offsetChars m ++ [] = offsetChars n ++ [] := by rw [heq]
  simp only [offsetChars, List.append_assoc, List.cons_append] at h
  obtain ⟨hmark, h⟩ := List.cons.inj h
  have hsign : m < 0 ↔ n < 0 := by
    by_cases hm : m < 0 <;> by_cases hn : n < 0 <;> simp [hm, hn] at hmark ⊢
  obtain ⟨hhour, -, h⟩ := padded_append_inj (by simp) (by simp) h
  have hmarked : ∀ k : ℕ, Undigited ((if k % 60000000 = 0 then []
      else ':' :: (Date.padded 2 (Clock.second k) ++ (if Clock.microsecond k = 0 then []
        else '.' :: Date.padded 6 (Clock.microsecond k)))) ++ []) := by
    intro k
    split <;> simp
  obtain ⟨hminute, -, h⟩ := padded_append_inj (hmarked _) (hmarked _) (List.cons.inj h).2
  have hrest : Clock.second m.natAbs = Clock.second n.natAbs ∧
      Clock.microsecond m.natAbs = Clock.microsecond n.natAbs := by
    by_cases hm : m.natAbs % 60000000 = 0 <;> by_cases hn : n.natAbs % 60000000 = 0
    · simp only [Clock.second, Clock.microsecond]
      omega
    · simp [hm, hn] at h
    · simp [hm, hn] at h
    · rw [if_neg hm, if_neg hn, List.cons_append, List.cons_append, List.append_assoc,
        List.append_assoc] at h
      obtain ⟨hsecond, -, h⟩ := padded_append_inj (undigited_optional rfl Text.undigited_nil)
        (undigited_optional rfl Text.undigited_nil) (List.cons.inj h).2
      obtain ⟨hmicro, -⟩ := optional_append_inj Text.undigited_nil Text.undigited_nil (by simp)
        (by simp) h
      exact ⟨hsecond, hmicro⟩
  have hparts := Clock.eq_of_parts hhour hminute hrest.1 hrest.2
  omega

/-- What an ISO text has behind the clock reading. -/
def zoneChars : Option ℤ → List Char
  | none => []
  | some microseconds => offsetChars microseconds

theorem zoneChars_injective : Function.Injective zoneChars := by
  intro o p h
  cases o <;> cases p
  · rfl
  · simp [zoneChars, offsetChars] at h
  · simp [zoneChars, offsetChars] at h
  · rw [offsetChars_injective h]

/-- An offset begins with its sign. -/
theorem head?_zoneChars (o : Option ℤ) : ∀ c ∈ (zoneChars o).head?, c = '-' ∨ c = '+' := by
  cases o with
  | none => simp [zoneChars]
  | some seconds =>
    by_cases hsign : seconds < 0 <;> simp [zoneChars, offsetChars, hsign]

theorem isoChars_eq (separator : Char) (t : DateTime) : t.isoChars separator =
    t.date.isoChars ++ separator :: (Clock.isoChars t.clock ++ zoneChars t.offset) := by
  simp only [isoChars, List.append_assoc, List.cons_append]
  rfl

theorem iso_injective {separator : Char} (hseparator : separator.isDigit = false) :
    Function.Injective (iso separator) := by
  intro s t h
  have hundigited : ∀ o, Undigited (zoneChars o) := by
    intro o c hc
    rcases head?_zoneChars o c hc with rfl | rfl <;> rfl
  have hpoint : ∀ o, (zoneChars o).head? ≠ some '.' := by
    intro o hc
    rcases head?_zoneChars o '.' hc with h | h <;> simp at h
  have hchars := String.ofList_injective h
  rw [isoChars_eq, isoChars_eq] at hchars
  obtain ⟨hdate, hrest⟩ := Date.isoChars_append_inj (Text.undigited_cons.mpr hseparator)
    (Text.undigited_cons.mpr hseparator) hchars
  obtain ⟨hclock, hzone⟩ := Clock.isoChars_append_inj (hundigited _) (hundigited _) (hpoint _)
    (hpoint _) (List.cons.inj hrest).2
  cases s
  cases t
  cases hdate
  cases hclock
  cases zoneChars_injective hzone
  rfl

end DateTime
end OrderedRelations
