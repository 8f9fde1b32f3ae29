import OrderedRelations.Proofs.Text.BlankWords
import OrderedRelations.Proofs.Text.Captures
import OrderedRelations.Proofs.Vocabulary.Tokens
import OrderedRelations.Window.OrderKey

/-!
# Readings of an order key

A text may be cut in many ways, and the words of an order key may look like its column. But a word
that is captured ends where a word of the text ends, since a blank has to follow or the text is
over. So a reading is known from the words of the text: their number tells which of them are said.
-/

namespace OrderedRelations.OrderKey

open Text (isBlank blankWords Apart)
open Text.Captures (run optional andThen mem_run mem_optional mem_andThen)

/-- A word that is read as one of some keywords. -/
def OneOf (keywords : List String) (word : List Char) : Prop :=
  ∃ keyword ∈ keywords, isKeyword keyword word

variable {keywords : List String} {cs rest word : List Char}

theorem keywordLetter_of_isBlank {c : Char} (h : isBlank c) : keywordLetter c = c := by
  have hs : c ≠ 'ſ' := by rintro rfl; exact absurd h (by decide)
  have hi : ¬(c = 'ı' ∨ c = 'İ') := by rintro (rfl | rfl) <;> exact absurd h (by decide)
  rw [keywordLetter, if_neg hs, if_neg hi, Text.toLower_of_isBlank h]

theorem isBlank_of_isKeyword {keyword : String} (hplain : Label.isPlain keyword)
    (h : isKeyword keyword word) : ∀ c ∈ word, isBlank c = false := by
  refine fun c hc => by_contra fun hblank => ?_
  have hletter := keywordLetter_of_isBlank (by simpa using hblank)
  have hmem : c ∈ keyword.toList :=
    of_decide_eq_true h ▸ List.mem_map.mpr ⟨c, hc, hletter⟩
  exact hblank (Label.isBlank_of_isPlain hplain hmem)

theorem mem_keyword : (word, rest) ∈ keyword keywords cs ↔
    OneOf keywords word ∧ cs = word ++ rest := by
  simp only [keyword, OneOf, List.mem_map, List.mem_filter, Prod.mk.injEq]
  constructor
  · rintro ⟨keyword, ⟨hkeyword, hspelled⟩, rfl, rfl⟩
    exact ⟨⟨keyword, hkeyword, hspelled⟩, (List.take_append_drop _ _).symm⟩
  · rintro ⟨⟨keyword, hkeyword, hspelled⟩, rfl⟩
    have hlength : keyword.length = word.length := by
      rw [← String.length_toList, ← of_decide_eq_true hspelled, List.length_map]
    refine ⟨keyword, ?_⟩
    rw [hlength, List.take_left, List.drop_left]
    exact ⟨⟨hkeyword, hspelled⟩, rfl, rfl⟩

theorem isBlank_of_oneOf (hplain : ∀ keyword ∈ keywords, Label.isPlain keyword)
    (h : OneOf keywords word) : ∀ c ∈ word, isBlank c = false := by
  obtain ⟨keyword, hkeyword, hword⟩ := h
  exact isBlank_of_isKeyword (hplain keyword hkeyword) hword

theorem ne_nil_of_oneOf (hne : ∀ keyword ∈ keywords, keyword.toList ≠ [])
    (h : OneOf keywords word) : word ≠ [] := by
  obtain ⟨keyword, hkeyword, hword⟩ := h
  rintro rfl
  exact hne keyword hkeyword (of_decide_eq_true hword).symm

/-- A keyword behind blanks and in front of a blank or the end is the first word of the text. -/
theorem blankWords_keyword {gap : List Char} (hgap : ∀ c ∈ gap, isBlank c)
    (hplain : ∀ keyword ∈ keywords, Label.isPlain keyword)
    (hne : ∀ keyword ∈ keywords, keyword.toList ≠ []) (h : OneOf keywords word)
    (hapart : Apart rest) : blankWords (gap ++ (word ++ rest)) = word :: blankWords rest := by
  rw [Text.blankWords_gap hgap,
    Text.blankWords_word (ne_nil_of_oneOf hne h) (isBlank_of_oneOf hplain h) hapart]

abbrev directions : List String := ["asc", "desc", "ascending", "descending"]

abbrev places : List String := ["first", "last"]

/-- The words that say a direction, if it is said. -/
inductive DirectionWords : Option (List Char) → List (List Char) → Prop
  | unsaid : DirectionWords none []
  | said {word : List Char} (h : OneOf directions word) : DirectionWords (some word) [word]

/-- The words that say the place of nulls, if it is said. -/
inductive PlaceWords : Option (List Char) → List (List Char) → Prop
  | unsaid : PlaceWords none []
  | said {nulls word : List Char} (hnulls : OneOf ["nulls"] nulls) (h : OneOf places word) :
      PlaceWords (some word) [nulls, word]

/-- A wording, and the words that say it. -/
def Worded (w : Wording) (words : List (List Char)) : Prop :=
  ∃ directionWords placeWords, DirectionWords w.direction directionWords ∧
    PlaceWords w.place placeWords ∧ words = w.column :: (directionWords ++ placeWords)

variable {words : List (List Char)} {found : Option (List Char)}

theorem direction_of_mem (h : (found, rest) ∈ optional directionWord cs) (hapart : Apart rest) :
    Apart cs ∧ ∃ said, DirectionWords found said ∧ blankWords cs = said ++ blankWords rest := by
  obtain ⟨word, rfl, hcaptured⟩ | ⟨rfl, rfl⟩ := mem_optional.mp h
  · obtain ⟨gap, _, hgap, hkeyword⟩ := mem_andThen.mp hcaptured
    obtain ⟨hne, hblank, rfl⟩ := mem_run.mp hgap
    obtain ⟨hword, rfl⟩ := mem_keyword.mp hkeyword
    exact ⟨Text.apart_append hne hblank, [word], .said hword,
      blankWords_keyword hblank (by decide) (by decide) hword hapart⟩
  · exact ⟨hapart, [], .unsaid, rfl⟩

theorem mem_direction {said : List (List Char)} (hsaid : DirectionWords found said)
    (hapart : Apart cs) (hwords : blankWords cs = said ++ words) :
    ∃ rest, (found, rest) ∈ optional directionWord cs ∧ Apart rest ∧ blankWords rest = words := by
  cases hsaid with
  | unsaid => exact ⟨cs, mem_optional.mpr (.inr ⟨rfl, rfl⟩), hapart, hwords⟩
  | said hword =>
    obtain ⟨gap, rest, rfl, hne, hgap, hrest, hwords⟩ := Text.exists_word_of_apart hapart hwords
    exact ⟨rest, mem_optional.mpr (.inl ⟨_, rfl, mem_andThen.mpr ⟨gap, _,
      mem_run.mpr ⟨hne, hgap, rfl⟩, mem_keyword.mpr ⟨hword, rfl⟩⟩⟩), hrest, hwords⟩

theorem place_of_mem (h : (found, rest) ∈ optional placeWord cs) (hapart : Apart rest) :
    Apart cs ∧ ∃ said, PlaceWords found said ∧ blankWords cs = said ++ blankWords rest := by
  obtain ⟨word, rfl, hcaptured⟩ | ⟨rfl, rfl⟩ := mem_optional.mp h
  · obtain ⟨gap, _, hgap, hcaptured⟩ := mem_andThen.mp hcaptured
    obtain ⟨nulls, _, hannounced, hcaptured⟩ := mem_andThen.mp hcaptured
    obtain ⟨inner, _, hinner, hkeyword⟩ := mem_andThen.mp hcaptured
    obtain ⟨hne, hblank, rfl⟩ := mem_run.mp hgap
    obtain ⟨hnulls, rfl⟩ := mem_keyword.mp hannounced
    obtain ⟨hne', hblank', rfl⟩ := mem_run.mp hinner
    obtain ⟨hword, rfl⟩ := mem_keyword.mp hkeyword
    refine ⟨Text.apart_append hne hblank, [nulls, word], .said hnulls hword, ?_⟩
    rw [blankWords_keyword hblank (by decide) (by decide) hnulls (Text.apart_append hne' hblank'),
      blankWords_keyword hblank' (by decide) (by decide) hword hapart]
    rfl
  · exact ⟨hapart, [], .unsaid, rfl⟩

theorem mem_place {said : List (List Char)} (hsaid : PlaceWords found said) (hapart : Apart cs)
    (hwords : blankWords cs = said ++ words) :
    ∃ rest, (found, rest) ∈ optional placeWord cs ∧ Apart rest ∧ blankWords rest = words := by
  cases hsaid with
  | unsaid => exact ⟨cs, mem_optional.mpr (.inr ⟨rfl, rfl⟩), hapart, hwords⟩
  | said hnulls hword =>
    obtain ⟨gap, rest, rfl, hne, hgap, hrest, hwords⟩ := Text.exists_word_of_apart hapart hwords
    obtain ⟨inner, rest', rfl, hne', hinner, hrest', hwords⟩ :=
      Text.exists_word_of_apart hrest hwords
    exact ⟨rest', mem_optional.mpr (.inl ⟨_, rfl, mem_andThen.mpr ⟨gap, _,
      mem_run.mpr ⟨hne, hgap, rfl⟩, mem_andThen.mpr ⟨_, _, mem_keyword.mpr ⟨hnulls, rfl⟩,
      mem_andThen.mpr ⟨inner, _, mem_run.mpr ⟨hne', hinner, rfl⟩,
      mem_keyword.mpr ⟨hword, rfl⟩⟩⟩⟩⟩), hrest', hwords⟩

theorem mem_finish {wording w : Wording} : (w, rest) ∈ finish wording cs ↔
    w = wording ∧ rest = cs ∧ (cs = [] ∨ cs = ['\n']) := by
  rw [finish]
  split <;> simp_all

/-- A line end may be left behind the blanks at the end of a text, and is blank itself. -/
theorem mem_ending {wording w : Wording} : (∃ rest,
      (w, rest) ∈ andThen (optional (run isBlank) cs) fun _ cs => finish wording cs) ↔
    w = wording ∧ ∀ c ∈ cs, isBlank c := by
  simp only [mem_andThen, mem_finish]
  constructor
  · rintro ⟨left, gap, _, hgap, rfl, rfl, hend⟩
    have hleft : ∀ c ∈ left, isBlank c := by
      rcases hend with rfl | rfl <;> simp [show isBlank '\n' = true by decide]
    refine ⟨rfl, ?_⟩
    obtain ⟨front, -, hfront⟩ | ⟨-, rfl⟩ := mem_optional.mp hgap
    · obtain ⟨-, hblank, rfl⟩ := mem_run.mp hfront
      exact List.forall_mem_append.mpr ⟨hblank, hleft⟩
    · exact hleft
  · rintro ⟨rfl, hblank⟩
    by_cases hne : cs = []
    · exact ⟨cs, none, cs, mem_optional.mpr (.inr ⟨rfl, rfl⟩), rfl, rfl, .inl hne⟩
    · exact ⟨[], some cs, [], mem_optional.mpr (.inl ⟨cs, rfl, mem_run.mpr
        ⟨hne, hblank, (List.append_nil _).symm⟩⟩), rfl, rfl, .inl rfl⟩

theorem worded_of_mem {w : Wording} (h : (w, rest) ∈ wordings cs) : Worded w (blankWords cs) := by
  obtain ⟨lead, cs₁, hlead, h₁⟩ := mem_andThen.mp h
  obtain ⟨column, cs₂, hcolumn, h₂⟩ := mem_andThen.mp h₁
  obtain ⟨direction, cs₃, hdirection, h₃⟩ := mem_andThen.mp h₂
  obtain ⟨place, cs₄, hplace, h₄⟩ := mem_andThen.mp h₃
  obtain ⟨rfl, hending⟩ := mem_ending.mp ⟨rest, h₄⟩
  obtain ⟨hne, hword, rfl⟩ := mem_run.mp hcolumn
  have hend : Apart cs₄ := fun c hc => hending c (List.mem_of_mem_head? hc)
  obtain ⟨hapart, placeWords, hplaceWords, hplaceEq⟩ := place_of_mem hplace hend
  obtain ⟨hapart', directionWords, hdirectionWords, hdirectionEq⟩ :=
    direction_of_mem hdirection hapart
  have hleft : blankWords cs₄ = [] := by simpa using @Text.blankWords_gap [] cs₄ hending
  have hcs : blankWords cs = blankWords (column ++ cs₂) := by
    obtain ⟨gap, -, hgap⟩ | ⟨-, rfl⟩ := mem_optional.mp hlead
    · obtain ⟨-, hblank, rfl⟩ := mem_run.mp hgap
      exact Text.blankWords_gap hblank
    · rfl
  refine ⟨directionWords, placeWords, hdirectionWords, hplaceWords, ?_⟩
  rw [hcs, Text.blankWords_word hne (by simpa using hword) hapart', hdirectionEq, hplaceEq, hleft,
    List.append_nil]

theorem mem_of_worded {w : Wording} (h : Worded w (blankWords cs)) : ∃ rest, (w, rest) ∈ wordings cs := by
  obtain ⟨_, _, hdirection, hplace, hwords⟩ := h
  obtain ⟨gap, cs₂, rfl, hgap, hne, hword, hapart, hwords⟩ := Text.exists_word hwords
  obtain ⟨cs₃, hdirection, hapart, hwords⟩ := mem_direction hdirection hapart hwords
  obtain ⟨cs₄, hplace, -, hwords⟩ :=
    mem_place hplace hapart (hwords.trans (List.append_nil _).symm)
  obtain ⟨rest, hend⟩ := mem_ending.mpr ⟨rfl, Text.isBlank_of_blankWords_eq_nil hwords⟩
  have hlead : ∃ lead, (lead, w.column ++ cs₂) ∈
      optional (run isBlank) (gap ++ (w.column ++ cs₂)) := by
    by_cases hgapne : gap = []
    · exact ⟨none, mem_optional.mpr (.inr ⟨rfl, by simp [hgapne]⟩)⟩
    · exact ⟨some gap, mem_optional.mpr (.inl ⟨gap, rfl, mem_run.mpr ⟨hgapne, hgap, rfl⟩⟩)⟩
  obtain ⟨lead, hlead⟩ := hlead
  exact ⟨rest, mem_andThen.mpr ⟨lead, _, hlead, mem_andThen.mpr ⟨w.column, cs₂,
    mem_run.mpr ⟨hne, by simpa using hword, rfl⟩, mem_andThen.mpr ⟨_, cs₃, hdirection,
    mem_andThen.mpr ⟨_, cs₄, hplace, hend⟩⟩⟩⟩⟩

/-- No two wordings are said with the same words. -/
theorem Worded.unique {w w' : Wording} (h : Worded w words) (h' : Worded w' words) : w = w' := by
  obtain ⟨column, direction, place⟩ := w
  obtain ⟨column', direction', place'⟩ := w'
  obtain ⟨_, _, hdirection, hplace, rfl⟩ := h
  obtain ⟨_, _, hdirection', hplace', hwords⟩ := h'
  cases hdirection <;> cases hplace <;> cases hdirection' <;> cases hplace' <;> simp_all

end OrderedRelations.OrderKey
