import Mathlib.Data.List.TakeWhile
import OrderedRelations.Text.Blank

/-!
# Words between blanks

The words of a text are what stands between its blanks. Blanks in front change nothing, and a word
in front of a blank or of the end is the first of the words. Conversely the words tell how the text
is cut.
-/

namespace OrderedRelations.Text

def blankWords (cs : List Char) : List (List Char) := (cs.splitOnP isBlank).filter (· ≠ [])

/-- A text that may follow a word: it goes on with a blank, or it ends. -/
def Apart (cs : List Char) : Prop := ∀ c ∈ cs.head?, isBlank c

variable {cs rest gap word : List Char}

@[simp] theorem apart_nil : Apart [] := by simp [Apart]

@[simp] theorem apart_cons {c : Char} : Apart (c :: cs) ↔ isBlank c := by simp [Apart]

theorem apart_append (hne : gap ≠ []) (hgap : ∀ c ∈ gap, isBlank c) : Apart (gap ++ cs) := by
  obtain ⟨c, gap, rfl⟩ := List.exists_cons_of_ne_nil hne
  exact apart_cons.mpr (hgap c List.mem_cons_self)

@[simp] theorem blankWords_nil : blankWords [] = [] := by simp [blankWords]

theorem blankWords_cons {c : Char} (hc : isBlank c) : blankWords (c :: cs) = blankWords cs := by
  simp [blankWords, List.splitOnP_cons_eq_if_modifyHead, hc]

theorem blankWords_gap (hgap : ∀ c ∈ gap, isBlank c) :
    blankWords (gap ++ cs) = blankWords cs := by
  induction gap with
  | nil => rfl
  | cons c gap ih =>
    obtain ⟨hc, hgap⟩ := List.forall_mem_cons.mp hgap
    rw [List.cons_append, blankWords_cons hc, ih hgap]

theorem blankWords_word (hne : word ≠ []) (hword : ∀ c ∈ word, isBlank c = false)
    (hapart : Apart cs) : blankWords (word ++ cs) = word :: blankWords cs := by
  cases cs with
  | nil => simp [blankWords, List.splitOnP_eq_singleton hword, hne]
  | cons c cs =>
    have hc := apart_cons.mp hapart
    rw [blankWords_cons hc, blankWords, List.splitOnP_append_cons _ _ hc,
      List.splitOnP_eq_singleton hword]
    simp [hne, blankWords]

theorem mem_of_mem_splitOnP {test : Char → Bool} (h : word ∈ cs.splitOnP test) {c : Char}
    (hc : c ∈ word) : c ∈ cs := by
  induction cs generalizing word with
  | nil => simp_all
  | cons d cs ih =>
    obtain ⟨first, others, hsplit⟩ := List.exists_cons_of_ne_nil (List.splitOnP_ne_nil test cs)
    rw [List.splitOnP_cons_eq_if_modifyHead] at h
    split at h
    · rcases List.mem_cons.mp h with rfl | h
      · cases hc
      · exact List.mem_cons_of_mem d (ih h hc)
    · rw [hsplit, List.modifyHead_cons] at h
      rcases List.mem_cons.mp h with rfl | h
      · rcases List.mem_cons.mp hc with rfl | hc
        · exact List.mem_cons_self
        · exact List.mem_cons_of_mem d (ih (hsplit ▸ List.mem_cons_self) hc)
      · exact List.mem_cons_of_mem d (ih (hsplit ▸ List.mem_cons_of_mem first h) hc)

theorem mem_of_mem_blankWords (h : word ∈ blankWords cs) {c : Char} (hc : c ∈ word) : c ∈ cs :=
  mem_of_mem_splitOnP (List.mem_filter.mp h).1 hc

/-- The longest front of characters of a class. -/
theorem exists_front (inClass : Char → Bool) (cs : List Char) : ∃ front rest, cs = front ++ rest ∧
    (∀ c ∈ front, inClass c) ∧ ∀ c ∈ rest.head?, inClass c = false := by
  refine ⟨cs.takeWhile inClass, cs.dropWhile inClass, List.takeWhile_append_dropWhile.symm,
    fun c hc => List.mem_takeWhile_imp hc, fun c hc => ?_⟩
  have := List.head?_dropWhile_not inClass cs
  rwa [Option.mem_def.mp hc] at this

/-- The blanks in front of a text, its first word and the text behind it; the word is empty only
where the text is blank. -/
theorem exists_word_or_blank (cs : List Char) : ∃ gap word rest, cs = gap ++ (word ++ rest) ∧
    (∀ c ∈ gap, isBlank c) ∧ (∀ c ∈ word, isBlank c = false) ∧ Apart rest ∧
    (word = [] → rest = []) := by
  obtain ⟨gap, text, rfl, hgap, hfirst⟩ := exists_front isBlank cs
  obtain ⟨word, rest, rfl, hword, hrest⟩ := exists_front (!isBlank ·) text
  refine ⟨gap, word, rest, rfl, hgap, by simpa using hword, by simpa [Apart] using hrest, ?_⟩
  rintro rfl
  cases rest with
  | nil => rfl
  | cons c rest => exact absurd (hrest c rfl) (by simpa using hfirst c rfl)

/-- A text without words is blank. -/
theorem isBlank_of_blankWords_eq_nil (h : blankWords cs = []) : ∀ c ∈ cs, isBlank c := by
  obtain ⟨gap, word, rest, rfl, hgap, hword, hapart, hempty⟩ := exists_word_or_blank cs
  by_cases hne : word = []
  · simpa [hne, hempty hne] using hgap
  · rw [blankWords_gap hgap, blankWords_word hne hword hapart] at h
    exact absurd h (List.cons_ne_nil _ _)

/-- The first word, with the text in front of it and behind it. -/
theorem exists_word {words : List (List Char)} (h : blankWords cs = word :: words) :
    ∃ gap rest, cs = gap ++ (word ++ rest) ∧ (∀ c ∈ gap, isBlank c) ∧ word ≠ [] ∧
      (∀ c ∈ word, isBlank c = false) ∧ Apart rest ∧ blankWords rest = words := by
  obtain ⟨gap, word', rest, rfl, hgap, hword, hapart, hempty⟩ := exists_word_or_blank cs
  rw [blankWords_gap hgap] at h
  by_cases hne : word' = []
  · simp [hne, hempty hne] at h
  · rw [blankWords_word hne hword hapart] at h
    obtain ⟨rfl, hwords⟩ := List.cons.inj h
    exact ⟨gap, rest, rfl, hgap, hne, hword, hapart, hwords⟩

/-- Behind a word the next one comes after a blank. -/
theorem exists_word_of_apart {words : List (List Char)} (hapart : Apart cs)
    (h : blankWords cs = word :: words) : ∃ gap rest, cs = gap ++ (word ++ rest) ∧ gap ≠ [] ∧
      (∀ c ∈ gap, isBlank c) ∧ Apart rest ∧ blankWords rest = words := by
  obtain ⟨gap, rest, rfl, hgap, hne, hword, hrest, hwords⟩ := exists_word h
  refine ⟨gap, rest, rfl, ?_, hgap, hrest, hwords⟩
  rintro rfl
  obtain ⟨c, word, rfl⟩ := List.exists_cons_of_ne_nil hne
  exact absurd (apart_cons.mp hapart) (by simp [hword c List.mem_cons_self])

end OrderedRelations.Text
