import OrderedRelations.Proofs.Window.KeyReadings

/-!
# Order keys as text

The words of an order key are its column and, where they are said, its direction and the place of
nulls. A text in ASCII is read as a key exactly if its words are those of one, and a key is printed
as words that are read back.
-/

namespace OrderedRelations.OrderKey

open Text (isBlank blankWords)

/-- A keyword in any case. -/
def Spells (keyword : String) (word : List Char) : Prop :=
  word.map Char.toLower = keyword.toList

inductive SpellsDirection : SortDirection → List Char → Prop
  | asc {word : List Char} (h : Spells "asc" word) : SpellsDirection .asc word
  | ascending {word : List Char} (h : Spells "ascending" word) : SpellsDirection .asc word
  | desc {word : List Char} (h : Spells "desc" word) : SpellsDirection .desc word
  | descending {word : List Char} (h : Spells "descending" word) : SpellsDirection .desc word

inductive SpellsPlace : NullPlacement → List Char → Prop
  | first {word : List Char} (h : Spells "first" word) : SpellsPlace .first word
  | last {word : List Char} (h : Spells "last" word) : SpellsPlace .last word

/-- The words of a key. What is not said is ascending, and nulls are last there and first in
descending order. -/
inductive Words : OrderKey → List (List Char) → Prop
  | column (column : List Char) : Words ⟨String.ofList column, .asc, .last⟩ [column]
  | directed (column : List Char) {direction : SortDirection} {word : List Char}
      (h : SpellsDirection direction word) :
      Words ⟨String.ofList column, direction, if direction = .asc then .last else .first⟩
        [column, word]
  | placed (column : List Char) {place : NullPlacement} {nulls word : List Char}
      (hnulls : Spells "nulls" nulls) (h : SpellsPlace place word) :
      Words ⟨String.ofList column, .asc, place⟩ [column, nulls, word]
  | full (column : List Char) {direction : SortDirection} {place : NullPlacement}
      {word nulls placeWord : List Char} (h : SpellsDirection direction word)
      (hnulls : Spells "nulls" nulls) (hplace : SpellsPlace place placeWord) :
      Words ⟨String.ofList column, direction, place⟩ [column, word, nulls, placeWord]

variable {keyword : String} {word : List Char} {key : OrderKey} {direction : SortDirection}
  {place : NullPlacement}

theorem keywordLetter_of_lt {c : Char} (h : c.toNat < 128) : keywordLetter c = c.toLower := by
  have hs : c ≠ 'ſ' := by rintro rfl; exact absurd h (by decide)
  have hi : ¬(c = 'ı' ∨ c = 'İ') := by rintro (rfl | rfl) <;> exact absurd h (by decide)
  rw [keywordLetter, if_neg hs, if_neg hi]

theorem map_keywordLetter (h : ∀ c ∈ word, c.toNat < 128) :
    word.map keywordLetter = word.map Char.toLower :=
  List.map_congr_left fun c hc => keywordLetter_of_lt (h c hc)

theorem isKeyword_of_spells (hplain : Label.isPlain keyword) (h : Spells keyword word) :
    isKeyword keyword word := by
  refine decide_eq_true ?_
  rw [map_keywordLetter fun c hc => Text.toNat_lt_of_toLower (Label.of_isPlain hplain ?_).1, h]
  exact h ▸ List.mem_map_of_mem hc

theorem spells_of_isKeyword (hascii : ∀ c ∈ word, c.toNat < 128) (h : isKeyword keyword word) :
    Spells keyword word := by
  rw [Spells, ← map_keywordLetter hascii, of_decide_eq_true h]

/-! ## What a wording stands for -/

theorem SpellsDirection.oneOf (h : SpellsDirection direction word) : OneOf directions word := by
  cases h with
  | asc h => exact ⟨"asc", by decide, isKeyword_of_spells (by decide) h⟩
  | ascending h => exact ⟨"ascending", by decide, isKeyword_of_spells (by decide) h⟩
  | desc h => exact ⟨"desc", by decide, isKeyword_of_spells (by decide) h⟩
  | descending h => exact ⟨"descending", by decide, isKeyword_of_spells (by decide) h⟩

theorem SpellsPlace.oneOf (h : SpellsPlace place word) : OneOf places word := by
  cases h with
  | first h => exact ⟨"first", by decide, isKeyword_of_spells (by decide) h⟩
  | last h => exact ⟨"last", by decide, isKeyword_of_spells (by decide) h⟩

theorem exists_spellsDirection (hascii : ∀ c ∈ word, c.toNat < 128) (h : OneOf directions word) :
    ∃ direction, SpellsDirection direction word := by
  obtain ⟨keyword, hkeyword, h⟩ := h
  have hspells := spells_of_isKeyword hascii h
  simp only [List.mem_cons, List.not_mem_nil, or_false] at hkeyword
  rcases hkeyword with rfl | rfl | rfl | rfl
  · exact ⟨_, .asc hspells⟩
  · exact ⟨_, .desc hspells⟩
  · exact ⟨_, .ascending hspells⟩
  · exact ⟨_, .descending hspells⟩

theorem exists_spellsPlace (hascii : ∀ c ∈ word, c.toNat < 128) (h : OneOf places word) :
    ∃ place, SpellsPlace place word := by
  obtain ⟨keyword, hkeyword, h⟩ := h
  have hspells := spells_of_isKeyword hascii h
  simp only [List.mem_cons, List.not_mem_nil, or_false] at hkeyword
  rcases hkeyword with rfl | rfl
  · exact ⟨_, .first hspells⟩
  · exact ⟨_, .last hspells⟩

theorem readDirection_of_spells (h : SpellsDirection direction word) :
    Label.readDirection (.text (String.ofList word)) = .ok direction := by
  cases h with
  | asc h => rw [Label.readDirection, Label.token_of_map_toLower (by decide) h]; rfl
  | ascending h => rw [Label.readDirection, Label.token_of_map_toLower (by decide) h]; rfl
  | desc h => rw [Label.readDirection, Label.token_of_map_toLower (by decide) h]; rfl
  | descending h => rw [Label.readDirection, Label.token_of_map_toLower (by decide) h]; rfl

theorem readNulls_of_spells (h : SpellsPlace place word) :
    Label.readNulls (.text (String.ofList word)) = .ok place := by
  cases h with
  | first h => rw [Label.readNulls, Label.token_of_map_toLower (by decide) h]; rfl
  | last h => rw [Label.readNulls, Label.token_of_map_toLower (by decide) h]; rfl

/-- What the direction of a wording stands for. -/
inductive MeansDirection : Option (List Char) → SortDirection → Prop
  | unsaid : MeansDirection none .asc
  | said {direction : SortDirection} {word : List Char} (h : SpellsDirection direction word) :
      MeansDirection (some word) direction

/-- What the place of nulls in a wording stands for, given the direction. -/
inductive MeansPlace (direction : SortDirection) : Option (List Char) → NullPlacement → Prop
  | unsaid : MeansPlace direction none (defaultNulls direction)
  | said {place : NullPlacement} {word : List Char} (h : SpellsPlace place word) :
      MeansPlace direction (some word) place

theorem MeansDirection.read {directionWord : Option (List Char)}
    (h : MeansDirection directionWord direction) :
    (if (wordValue directionWord).truthy then Label.readDirection (wordValue directionWord)
      else pure .asc) = .ok direction := by
  cases h with
  | unsaid => rfl
  | @said _ word h =>
    have hne : word ≠ [] := ne_nil_of_oneOf (by decide) h.oneOf
    have htruthy : (wordValue (some word)).truthy = true := by
      simpa [wordValue, Value.truthy, String.isEmpty_iff] using hne
    rw [if_pos htruthy]
    exact readDirection_of_spells h

theorem MeansPlace.read {placeWord : Option (List Char)} (h : MeansPlace direction placeWord place) :
    (if (wordValue placeWord).isNull then pure (defaultNulls direction)
      else Label.readNulls (wordValue placeWord)) = .ok place := by
  cases h with
  | unsaid => rfl
  | said h =>
    rw [if_neg (by simp [wordValue, Value.isNull])]
    exact readNulls_of_spells h

theorem settle_of_read {directionValue nullsValue : Value}
    (hdirection : (if directionValue.truthy then Label.readDirection directionValue
      else pure .asc) = .ok direction)
    (hplace : (if nullsValue.isNull then pure (defaultNulls direction)
      else Label.readNulls nullsValue) = .ok place) :
    settle directionValue nullsValue = .ok (direction, place) := by
  have hsteps : settle directionValue nullsValue =
      (if directionValue.truthy then Label.readDirection directionValue else pure .asc) >>=
        fun direction => (if nullsValue.isNull then pure (defaultNulls direction)
          else Label.readNulls nullsValue) >>= fun place => pure (direction, place) := by
    rw [settle]
    cases directionValue.truthy <;> cases nullsValue.isNull <;> rfl
  rw [hsteps, hdirection]
  change (if nullsValue.isNull then pure (defaultNulls direction)
    else Label.readNulls nullsValue) >>= _ = _
  rw [hplace]
  rfl

theorem make_of_means {column : String} {directionWord placeWord : Option (List Char)}
    (hdirection : MeansDirection directionWord direction)
    (hplace : MeansPlace direction placeWord place) :
    make column (wordValue directionWord) (wordValue placeWord) =
      .ok ⟨column, direction, place⟩ := by
  rw [make, settle_of_read hdirection.read hplace.read]

variable {words : List (List Char)} {s : String}

theorem oneOf_nulls (h : Spells "nulls" word) : OneOf ["nulls"] word :=
  ⟨_, List.mem_singleton_self _, isKeyword_of_spells (by decide) h⟩

/-- The words of a key are those of a wording that stands for it. -/
theorem Words.exists_wording (h : Words key words) : ∃ w : Wording, Worded w words ∧
    key.column = String.ofList w.column ∧ MeansDirection w.direction key.direction ∧
    MeansPlace key.direction w.place key.nulls := by
  cases h with
  | column column =>
    exact ⟨⟨column, none, none⟩, ⟨[], [], .unsaid, .unsaid, rfl⟩, rfl, .unsaid, .unsaid⟩
  | @directed column direction word h =>
    refine ⟨⟨column, some word, none⟩, ⟨_, [], .said h.oneOf, .unsaid, rfl⟩, rfl, .said h, ?_⟩
    cases direction <;> exact .unsaid
  | @placed column _ _ word hnulls h =>
    exact ⟨⟨column, none, some word⟩, ⟨[], _, .unsaid, .said (oneOf_nulls hnulls) h.oneOf, rfl⟩,
      rfl, .unsaid, .said h⟩
  | @full column _ _ word _ placeWord h hnulls hplace =>
    exact ⟨⟨column, some word, some placeWord⟩,
      ⟨_, _, .said h.oneOf, .said (oneOf_nulls hnulls) hplace.oneOf, rfl⟩, rfl, .said h,
      .said hplace⟩

/-- In ASCII the words of a wording are the words of a key. -/
theorem Worded.exists_words {w : Wording} (h : Worded w words)
    (hascii : ∀ word ∈ words, ∀ c ∈ word, c.toNat < 128) : ∃ key, Words key words := by
  obtain ⟨column, direction, place⟩ := w
  obtain ⟨_, _, hdirection, hplace, rfl⟩ := h
  have hnulls {nulls : List Char} (hascii : ∀ c ∈ nulls, c.toNat < 128)
      (h : OneOf ["nulls"] nulls) : Spells "nulls" nulls := by
    obtain ⟨_, hmem, h⟩ := h
    exact List.mem_singleton.mp hmem ▸ spells_of_isKeyword hascii h
  cases hdirection with
  | unsaid =>
    cases hplace with
    | unsaid => exact ⟨_, .column column⟩
    | @said nulls word hannounced hword =>
      obtain ⟨place, hplace⟩ := exists_spellsPlace (hascii word (by simp)) hword
      exact ⟨_, .placed column (hnulls (hascii nulls (by simp)) hannounced) hplace⟩
  | @said word hword =>
    obtain ⟨direction, hdirection⟩ := exists_spellsDirection (hascii word (by simp)) hword
    cases hplace with
    | unsaid => exact ⟨_, .directed column hdirection⟩
    | @said nulls word hannounced hword =>
      obtain ⟨place, hplace⟩ := exists_spellsPlace (hascii word (by simp)) hword
      exact ⟨_, .full column hdirection (hnulls (hascii nulls (by simp)) hannounced) hplace⟩

/-- The words of a key are read as that key. -/
theorem parse_of_words (h : Words key (blankWords s.toList)) : parse s = .ok key := by
  obtain ⟨w, hworded, hcolumn, hdirection, hplace⟩ := h.exists_wording
  obtain ⟨rest, hmem⟩ := mem_of_worded hworded
  rw [parse]
  split
  · rename_i w' rest' others hfirst
    obtain rfl : w' = w := (worded_of_mem (hfirst ▸ List.mem_cons_self)).unique hworded
    rw [make_of_means hdirection hplace, ← hcolumn]
  · rename_i hnone
    exact absurd (hnone ▸ hmem) List.not_mem_nil

/-- A text in ASCII is either read or has not the words of a key. -/
theorem exists_words_or_error (hascii : ∀ c ∈ s.toList, c.toNat < 128) :
    (∃ key, Words key (blankWords s.toList)) ∨ parse s = .error (.text (.unreadableOrderKey s)) := by
  cases hreadings : wordings s.toList with
  | nil => exact .inr (by rw [parse, hreadings])
  | cons first others =>
    obtain ⟨w, rest⟩ := first
    have hmem : (w, rest) ∈ wordings s.toList := hreadings ▸ List.mem_cons_self
    have hworded : Worded w (blankWords s.toList) := worded_of_mem hmem
    exact .inl (hworded.exists_words fun word hword c hc =>
      hascii c (Text.mem_of_mem_blankWords hword hc))

theorem spellsDirection_label (direction : SortDirection) :
    SpellsDirection direction (Labelled.label direction).toList := by
  cases direction
  · exact .asc rfl
  · exact .desc rfl

theorem spellsPlace_label (place : NullPlacement) :
    SpellsPlace place (Labelled.label place).toList := by
  cases place
  · exact .first rfl
  · exact .last rfl

/-- The words of a printed key. -/
theorem words_print (hne : key.column ≠ "") (hword : ∀ c ∈ key.column.toList, isBlank c = false) :
    Words key (blankWords key.print.toList) := by
  obtain ⟨column, direction, place⟩ := key
  have hsaid : blankWords (" " ++ Labelled.label direction ++ " nulls " ++
      Labelled.label place).toList =
      [(Labelled.label direction).toList, "nulls".toList, (Labelled.label place).toList] := by
    cases direction <;> cases place <;> cbv
  have hapart : Text.Apart (" " ++ Labelled.label direction ++ " nulls " ++
      Labelled.label place).toList := by
    simp [show isBlank ' ' = true by decide]
  have hprint : blankWords (print ⟨column, direction, place⟩).toList = column.toList ::
      [(Labelled.label direction).toList, "nulls".toList, (Labelled.label place).toList] := by
    rw [← hsaid, ← Text.blankWords_word (by simpa using hne) hword hapart]
    simp [print]
  rw [hprint]
  simpa using Words.full column.toList (spellsDirection_label direction)
    (show Spells "nulls" "nulls".toList from rfl) (spellsPlace_label place)

/-- Which texts in ASCII are keys, and that a printed key is read back as long as its column is a
word. -/
theorem parse_iff_words :
    (∀ s : String, (∀ c ∈ s.toList, c.toNat < 128) →
      (∀ key, parse s = .ok key ↔ Words key (blankWords s.toList)) ∧
      ((∀ key, ¬Words key (blankWords s.toList)) →
        parse s = .error (.text (.unreadableOrderKey s)))) ∧
    ∀ key : OrderKey, key.column ≠ "" → (∀ c ∈ key.column.toList, isBlank c = false) →
      parse key.print = .ok key := by
  refine ⟨fun s hascii => ⟨fun key => ⟨fun hparse => ?_, parse_of_words⟩, fun hnone => ?_⟩,
    fun key hne hword => parse_of_words (words_print hne hword)⟩
  · obtain ⟨key', hwords⟩ | herror := exists_words_or_error hascii
    · rw [parse_of_words hwords] at hparse
      exact Except.ok.inj hparse ▸ hwords
    · rw [hparse] at herror
      cases herror
  · obtain ⟨key, hwords⟩ | herror := exists_words_or_error hascii
    · exact absurd hwords (hnone key)
    · exact herror

/-- A column that is spelled like the keywords behind it, and a text that says a direction twice. -/
theorem parse_iff_words_desc : parse " desc\tDESC\n nulls  First " = .ok ⟨"desc", .desc, .first⟩ ∧
    parse "day asc desc" = .error (.text (.unreadableOrderKey "day asc desc")) ∧
    parse (print ⟨"nulls", .desc, .last⟩) = .ok ⟨"nulls", .desc, .last⟩ := by
  have hfirst := ((parse_iff_words.1 " desc\tDESC\n nulls  First " (by simp)).1
    ⟨"desc", .desc, .first⟩).mpr
  have hsecond := (parse_iff_words.1 "day asc desc" (by simp)).2
  have hplain : Label.isPlain "nulls" := by decide
  refine ⟨hfirst ?_, hsecond ?_,
    parse_iff_words.2 _ (by decide) fun _ => Label.isBlank_of_isPlain hplain⟩
  · have hwords : blankWords " desc\tDESC\n nulls  First ".toList =
        ["desc".toList, "DESC".toList, "nulls".toList, "First".toList] := by cbv
    rw [hwords]
    exact .full "desc".toList (.desc rfl) rfl (.first rfl)
  · have hwords : blankWords "day asc desc".toList =
        ["day".toList, "asc".toList, "desc".toList] := by cbv
    rw [hwords]
    rintro key (_ | _ | ⟨-, hnulls, -⟩ | _)
    exact absurd hnulls (by unfold Spells; decide)

/-- A key whose column has no name is printed with its direction in front, where it is read as the
column. -/
theorem parse_print_unnamed : (∀ c ∈ "".toList, isBlank c = false) ∧
    parse (print ⟨"", .asc, .last⟩) = .ok ⟨"asc", .asc, .last⟩ ∧
    parse (print ⟨"", .asc, .last⟩) ≠ .ok ⟨"", .asc, .last⟩ := by
  have hwords : blankWords (print ⟨"", .asc, .last⟩).toList =
      ["asc".toList, "nulls".toList, "last".toList] := by cbv
  have hparse : parse (print ⟨"", .asc, .last⟩) = .ok ⟨"asc", .asc, .last⟩ :=
    parse_of_words (hwords ▸ .placed "asc".toList rfl (.last rfl))
  refine ⟨by simp, hparse, fun h => ?_⟩
  exact absurd (Except.ok.inj (hparse.symm.trans h)) (by decide)

end OrderedRelations.OrderKey
