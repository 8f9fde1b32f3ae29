import Mathlib
import OrderedRelations.Proofs.Text.BlankWords
import OrderedRelations.Proofs.Vocabulary.Tokens

/-!
# Spellings of labels

The words of a label may be spelled in any case, with blanks around them and with one underscore,
or a run of blanks and hyphens, between two of them. In ASCII these are the texts whose token is the
label, so each reader accepts the spellings of the names that it knows and refuses everything else.
-/

namespace OrderedRelations

namespace Text

variable {cs before body after : List Char}

theorem dropWhile_isBlank_append (hbefore : ∀ c ∈ before, isBlank c)
    (hbody : ∀ c ∈ body.head?, isBlank c = false) :
    (before ++ body).dropWhile isBlank = body := by
  rw [List.dropWhile_append_of_pos hbefore]
  cases body with
  | nil => rfl
  | cons c body => exact List.dropWhile_cons_of_neg (by simp [hbody c rfl])

/-- Blanks are stripped from around a text that neither starts nor ends with one. -/
theorem stripBlanks_append (hbefore : ∀ c ∈ before, isBlank c) (hafter : ∀ c ∈ after, isBlank c)
    (hne : body ≠ []) (hfirst : ∀ c ∈ body.head?, isBlank c = false)
    (hlast : ∀ c ∈ body.getLast?, isBlank c = false) :
    stripBlanks (before ++ (body ++ after)) = body := by
  have hfront : ∀ c ∈ (body ++ after).head?, isBlank c = false := by
    rwa [List.head?_append_of_ne_nil _ hne]
  have hback : ∀ c ∈ body.reverse.head?, isBlank c = false := by rwa [List.head?_reverse]
  have hblank : ∀ c ∈ after.reverse, isBlank c := fun c hc => hafter c (List.mem_reverse.mp hc)
  rw [stripBlanks, strip, dropWhile_isBlank_append hbefore hfront, List.reverse_append,
    dropWhile_isBlank_append hblank hback, List.reverse_reverse]

/-- What is stripped from around a text is blank. -/
theorem exists_around_stripBlanks (cs : List Char) : ∃ before after,
    cs = before ++ (stripBlanks cs ++ after) ∧ (∀ c ∈ before, isBlank c) ∧
      ∀ c ∈ after, isBlank c := by
  have hends := List.takeWhile_append_dropWhile (p := isBlank)
    (l := (cs.dropWhile isBlank).reverse)
  refine ⟨cs.takeWhile isBlank, ((cs.dropWhile isBlank).reverse.takeWhile isBlank).reverse, ?_,
    fun c hc => List.mem_takeWhile_imp hc,
    fun c hc => List.mem_takeWhile_imp (List.mem_reverse.mp hc)⟩
  rw [stripBlanks, strip, ← List.reverse_append, hends, List.reverse_reverse,
    List.takeWhile_append_dropWhile]

theorem mem_of_mem_stripBlanks {c : Char} (h : c ∈ stripBlanks cs) : c ∈ cs := by
  obtain ⟨before, after, hcs, -, -⟩ := exists_around_stripBlanks cs
  rw [hcs]
  simp [h]

end Text

namespace Label

open Text (isBlank)

/-- What may stand between two words of a label. -/
def IsSeparator (gap : List Char) : Prop := gap = ['_'] ∨ gap ≠ [] ∧ ∀ c ∈ gap, isGap c

/-- Words in any case, with a separator between each two of them. -/
inductive SpellsWords : List (List Char) → List Char → Prop
  | last {word cs : List Char} (h : cs.map Char.toLower = word) : SpellsWords [word] cs
  | more {word cs gap rest : List Char} {others : List (List Char)}
      (h : cs.map Char.toLower = word) (hgap : IsSeparator gap) (hrest : SpellsWords others rest) :
      SpellsWords (word :: others) (cs ++ (gap ++ rest))

/-- A spelling of a label: its words, with blanks around them. -/
def Spelling (label : String) (cs : List Char) : Prop :=
  ∃ before body after, cs = before ++ (body ++ after) ∧ (∀ c ∈ before, isBlank c) ∧
    (∀ c ∈ after, isBlank c) ∧ SpellsWords (words label.toList) body

/-! ## Words and gaps -/

variable {cs gap rest word : List Char} {found : List (List Char)}

theorem words_eq_splitOnP (cs : List Char) : words cs = cs.splitOnP (· == '_') := by
  induction cs with
  | nil => rfl
  | cons c cs ih =>
    rw [words] at ih ⊢
    rw [Text.pieces, List.splitOnP_cons_eq_if_modifyHead, ← ih]
    by_cases hc : c = '_'
    · simp [hc]
    · rw [if_neg hc, if_neg (by simp [hc])]
      cases hwords : Text.pieces '_' cs with
      | nil => exact absurd (ih ▸ hwords) (List.splitOnP_ne_nil _ _)
      | cons first others => rfl

theorem words_of_notMem (h : '_' ∉ cs) : words cs = [cs] := by
  rw [words_eq_splitOnP, List.splitOnP_eq_singleton]
  exact fun c hc => beq_false_of_ne fun heq => h (heq ▸ hc)

theorem words_append_cons (h : '_' ∉ cs) : words (cs ++ '_' :: rest) = cs :: words rest := by
  rw [words_eq_splitOnP, List.splitOnP_append_cons _ _ (by rfl), ← words_eq_splitOnP,
    ← words_eq_splitOnP, words_of_notMem h]
  rfl

/-- A text is made of its words. -/
theorem words_injective : Function.Injective words := by
  intro cs ds h
  rw [words_eq_splitOnP, words_eq_splitOnP] at h
  calc cs = ['_'].intercalate (cs.splitOn '_') := (List.intercalate_splitOn '_').symm
    _ = ['_'].intercalate (ds.splitOn '_') := congrArg _ h
    _ = ds := List.intercalate_splitOn '_'

theorem joinGaps_underscore : joinGaps false ('_' :: rest) = '_' :: joinGaps false rest := rfl

theorem joinGaps_append (h : ∀ c ∈ cs, isGap c = false) :
    joinGaps false (cs ++ rest) = cs ++ joinGaps false rest := by
  induction cs with
  | nil => rfl
  | cons c cs ih =>
    obtain ⟨hc, hcs⟩ := List.forall_mem_cons.mp h
    rw [List.cons_append, joinGaps, if_neg (by simp [hc]), ih hcs, List.cons_append]

theorem joinGaps_true_append (h : ∀ c ∈ gap, isGap c) :
    joinGaps true (gap ++ rest) = joinGaps true rest := by
  induction gap with
  | nil => rfl
  | cons c gap ih =>
    obtain ⟨hc, hgap⟩ := List.forall_mem_cons.mp h
    rw [List.cons_append, joinGaps, if_pos hc, if_pos rfl, ih hgap]

/-- A run of blanks and hyphens becomes one underscore. -/
theorem joinGaps_gap (hne : gap ≠ []) (h : ∀ c ∈ gap, isGap c)
    (hrest : ∀ c ∈ rest.head?, isGap c = false) :
    joinGaps false (gap ++ rest) = '_' :: joinGaps false rest := by
  obtain ⟨c, gap, rfl⟩ := List.exists_cons_of_ne_nil hne
  obtain ⟨hc, hgap⟩ := List.forall_mem_cons.mp h
  rw [List.cons_append, joinGaps, if_pos hc, if_neg Bool.false_ne_true,
    joinGaps_true_append hgap]
  cases rest with
  | nil => rfl
  | cons d rest => simp [joinGaps, hrest d rfl]

theorem joinGaps_separator (hgap : IsSeparator gap) (hrest : ∀ c ∈ rest.head?, isGap c = false) :
    joinGaps false (gap ++ rest) = '_' :: joinGaps false rest := by
  obtain rfl | ⟨hne, hgap⟩ := hgap
  · exact joinGaps_underscore
  · exact joinGaps_gap hne hgap hrest

theorem mem_joinGaps {c : Char} {inGap : Bool} (h : c ∈ joinGaps inGap cs) :
    c = '_' ∨ c ∈ cs ∧ isGap c = false := by
  induction cs generalizing inGap with
  | nil => cases h
  | cons d cs ih =>
    rw [joinGaps] at h
    grind

/-- Only capitals change with case, and they become small letters. -/
theorem toLower_eq_or (c : Char) : c.toLower = c ∨ c.toLower.isLower := by
  by_cases hupper : c.val ≥ 'A'.val ∧ c.val ≤ 'Z'.val
  · have hval : c.toLower.val = c.val + ('a'.val - 'A'.val) := by
      rw [Char.toLower, dif_pos hupper]
    simp only [Char.isLower, hval, Bool.and_eq_true, decide_eq_true_eq, ge_iff_le,
      UInt32.le_iff_toNat_le, UInt32.toNat_add] at hupper ⊢
    simp at hupper ⊢
    omega
  · exact .inl (dif_neg hupper)

theorem eq_underscore_of_toLower {c : Char} (h : c.toLower = '_') : c = '_' := by
  obtain heq | hlower := toLower_eq_or c
  · exact heq.symm.trans h
  · rw [h] at hlower
    exact absurd hlower (by decide)

/-! ## Texts with a label as their token -/

/-- A word of a label: lower-case letters and digits, at least one. -/
def IsWord (word : List Char) : Prop := word ≠ [] ∧ ∀ c ∈ word, isWordChar c

theorem isGap_of_isWordChar {c : Char} (h : isWordChar c) : isGap c = false := by
  simp [isWordChar, Char.isLower, Char.isDigit, UInt32.le_iff_toNat_le] at h
  have hhyphen : c ≠ '-' := by rintro rfl; simp at h
  simp [isGap, Text.isBlank, Text.isWhiteSpace, Text.inRanges, Text.whiteSpaceRanges, hhyphen]
  omega

theorem isGap_of_isWord (hword : IsWord word) (h : cs.map Char.toLower = word) :
    ∀ c ∈ cs, isGap c = false := by
  refine fun c hc => Bool.eq_false_iff.mpr fun hgap => ?_
  have hchar := isGap_of_isWordChar (hword.2 c.toLower (h ▸ List.mem_map_of_mem hc))
  rw [toLower_of_isGap hgap, hgap] at hchar
  cases hchar

theorem underscore_notMem (hword : IsWord word) : '_' ∉ word :=
  fun h => absurd (hword.2 _ h) (by decide)

/-- Words are spelled with no gap at either end. -/
theorem SpellsWords.ends (h : SpellsWords found cs) (hfound : ∀ word ∈ found, IsWord word) :
    cs ≠ [] ∧ (∀ c ∈ cs.head?, isGap c = false) ∧ ∀ c ∈ cs.getLast?, isGap c = false := by
  induction h with
  | @last word cs h =>
    have hword := hfound word (by simp)
    have hgap := isGap_of_isWord hword h
    refine ⟨?_, fun c hc => hgap c (List.mem_of_mem_head? hc),
      fun c hc => hgap c (List.mem_of_mem_getLast? hc)⟩
    rintro rfl
    exact hword.1 h.symm
  | @more word cs gap rest others h _ _ ih =>
    have hword := hfound word (by simp)
    have hne : cs ≠ [] := by
      rintro rfl
      exact hword.1 h.symm
    obtain ⟨hrest, -, hlast⟩ := ih fun other hother => hfound other (by simp [hother])
    refine ⟨by simp [hne], fun c hc => ?_, fun c hc => hlast c ?_⟩
    · rw [List.head?_append_of_ne_nil _ hne] at hc
      exact isGap_of_isWord hword h c (List.mem_of_mem_head? hc)
    · rwa [List.getLast?_append_of_ne_nil _ (by simp [hrest]),
        List.getLast?_append_of_ne_nil _ hrest] at hc

/-- Spelled words are those that are left once gaps are joined and case is lost. -/
theorem SpellsWords.words_eq (h : SpellsWords found cs) (hfound : ∀ word ∈ found, IsWord word) :
    words ((joinGaps false cs).map Char.toLower) = found := by
  induction h with
  | @last word cs h =>
    have hword := hfound word (by simp)
    rw [joinGaps_eq_self (isGap_of_isWord hword h), h, words_of_notMem (underscore_notMem hword)]
  | @more word cs gap rest others h hgap hrest ih =>
    have hword := hfound word (by simp)
    have hothers : ∀ other ∈ others, IsWord other := fun other hother =>
      hfound other (by simp [hother])
    rw [joinGaps_append (isGap_of_isWord hword h),
      joinGaps_separator hgap (hrest.ends hothers).2.1, List.map_append, List.map_cons, h,
      show '_'.toLower = '_' from rfl, words_append_cons (underscore_notMem hword), ih hothers]

/-- A text is a word, or a word in front of a separator that becomes one underscore. -/
theorem exists_word_separator (cs : List Char) : ∃ front rest, cs = front ++ rest ∧
    (∀ c ∈ front, isGap c = false) ∧ '_' ∉ front ∧ (rest = [] ∨ ∃ gap more, rest = gap ++ more ∧
      IsSeparator gap ∧ joinGaps false rest = '_' :: joinGaps false more) := by
  obtain ⟨front, rest, rfl, hfront, hfirst⟩ :=
    Text.exists_front (fun c => !isGap c && c != '_') cs
  simp only [Bool.and_eq_true, Bool.not_eq_true', bne_iff_ne] at hfront
  refine ⟨front, rest, rfl, fun c hc => (hfront c hc).1, fun h => (hfront _ h).2 rfl, ?_⟩
  cases rest with
  | nil => exact .inl rfl
  | cons c rest =>
    refine .inr ?_
    by_cases hc : c = '_'
    · subst hc
      exact ⟨['_'], rest, rfl, .inl rfl, joinGaps_underscore⟩
    · have hgap : isGap c := by simpa [hc] using hfirst c rfl
      obtain ⟨gap, more, rfl, hgaps, hmore⟩ := Text.exists_front isGap rest
      have hall : ∀ d ∈ c :: gap, isGap d := List.forall_mem_cons.mpr ⟨hgap, hgaps⟩
      exact ⟨c :: gap, more, rfl, .inr ⟨List.cons_ne_nil _ _, hall⟩,
        joinGaps_gap (List.cons_ne_nil _ _) hall hmore⟩

/-- The words that are left once gaps are joined and case is lost have been spelled. -/
theorem spellsWords_of_words_eq (h : words ((joinGaps false cs).map Char.toLower) = found) :
    SpellsWords found cs := by
  induction found generalizing cs with
  | nil => exact absurd (words_eq_splitOnP _ ▸ h) (List.splitOnP_ne_nil _ _)
  | cons word others ih =>
    obtain ⟨front, rest, rfl, hgaps, hunderscore, hrest⟩ := exists_word_separator cs
    have hlower : '_' ∉ front.map Char.toLower := fun hmem => by
      obtain ⟨c, hc, heq⟩ := List.mem_map.mp hmem
      exact hunderscore (eq_underscore_of_toLower heq ▸ hc)
    obtain rfl | ⟨gap, more, rfl, hgap, hjoin⟩ := hrest
    · rw [List.append_nil, joinGaps_eq_self hgaps, words_of_notMem hlower] at h
      obtain ⟨hword, rfl⟩ := List.cons.inj h
      rw [List.append_nil]
      exact .last hword
    · rw [joinGaps_append hgaps, hjoin, List.map_append, List.map_cons,
        show '_'.toLower = '_' from rfl, words_append_cons hlower] at h
      obtain ⟨hword, hothers⟩ := List.cons.inj h
      exact .more hword hgap (ih hothers)

/-- A label that is made of words. -/
def IsWorded (label : String) : Prop := ∀ word ∈ words label.toList, IsWord word

instance (word : List Char) : Decidable (IsWord word) :=
  have : Decidable (∀ c ∈ word, isWordChar c) := List.decidableBAll _ word
  inferInstanceAs (Decidable (_ ∧ _))

instance (label : String) : Decidable (IsWorded label) :=
  List.decidableBAll IsWord (words label.toList)

theorem toList_token {s : String} (hascii : ∀ c ∈ s.toList, c.toNat < 128) :
    (token s).toList = (joinGaps false (Text.stripBlanks s.toList)).map Char.toLower := by
  rw [token, String.toList_ofList, Text.lower_of_lt]
  intro c hc
  obtain rfl | ⟨hc, -⟩ := mem_joinGaps hc
  · decide
  · exact hascii c (Text.mem_of_mem_stripBlanks hc)

/-- In ASCII the spellings of a label are the texts that have it as their token. -/
theorem token_eq_iff {s label : String} (hascii : ∀ c ∈ s.toList, c.toNat < 128)
    (hlabel : IsWorded label) : token s = label ↔ Spelling label s.toList := by
  rw [← String.toList_inj, toList_token hascii]
  constructor
  · intro h
    obtain ⟨before, after, hs, hbefore, hafter⟩ := Text.exists_around_stripBlanks s.toList
    exact ⟨before, _, after, hs, hbefore, hafter, spellsWords_of_words_eq (congrArg words h)⟩
  · rintro ⟨before, body, after, hs, hbefore, hafter, hbody⟩
    obtain ⟨hne, hfirst, hlast⟩ := hbody.ends hlabel
    have hblank {c : Char} (hc : isGap c = false) : isBlank c = false :=
      (Bool.or_eq_false_iff.mp hc).1
    rw [hs, Text.stripBlanks_append hbefore hafter hne (fun c hc => hblank (hfirst c hc))
      fun c hc => hblank (hlast c hc)]
    exact words_injective (hbody.words_eq hlabel)

/-! ## Texts that are tokens -/

/-- A text in ASCII without gaps and capitals. -/
def IsToken (t : String) : Prop :=
  ∀ c ∈ t.toList, c.toNat < 128 ∧ isGap c = false ∧ c.toLower = c

instance (t : String) : Decidable (IsToken t) := List.decidableBAll _ t.toList

theorem of_isLower {c : Char} (h : c.isLower) :
    c.toNat < 128 ∧ isGap c = false ∧ c.toLower = c := by
  refine ⟨?_, isGap_of_isWordChar (by simp [isWordChar, h]), dif_neg fun hupper => ?_⟩ <;>
    simp [Char.isLower, UInt32.le_iff_toNat_le] at h
  · omega
  · simp [UInt32.le_iff_toNat_le] at hupper
    omega

theorem IsToken.token_eq {t : String} (h : IsToken t) : token t = t := by
  have hlower : t.toList.map Char.toLower = t.toList := by
    conv_rhs => rw [← List.map_id t.toList]
    exact List.map_congr_left fun c hc => (h c hc).2.2
  conv_lhs => rw [← String.ofList_toList (s := t)]
  rw [token_ofList (fun c hc => (h c hc).1) fun c hc => (h c hc).2.1, hlower,
    String.ofList_toList]

theorem isToken_token {s : String} (hascii : ∀ c ∈ s.toList, c.toNat < 128) :
    IsToken (token s) := by
  intro c hc
  rw [toList_token hascii] at hc
  obtain ⟨d, hd, rfl⟩ := List.mem_map.mp hc
  have hplain : d.toNat < 128 ∧ isGap d = false := by
    obtain rfl | ⟨hd, hgap⟩ := mem_joinGaps hd
    · decide
    · exact ⟨hascii d (Text.mem_of_mem_stripBlanks hd), hgap⟩
  obtain heq | hlower := toLower_eq_or d
  · exact heq.symm ▸ ⟨hplain.1, hplain.2, heq⟩
  · exact of_isLower hlower

/-! ## Readers -/

variable {α : Type} [Labelled α] {s t : String} {m : α}

/-- The members of a vocabulary under their labels. -/
def names (α : Type) [Labelled α] : List (String × α) :=
  (Labelled.members : List α).map fun m => (Labelled.label m, m)

/-- The names of directions, the long ones among them. -/
def directionNames : List (String × SortDirection) :=
  names SortDirection ++ [("ascending", .asc), ("descending", .desc)]

/-- The names of null placements; each may be announced by a word of its own. -/
def nullsNames : List (String × NullPlacement) :=
  names NullPlacement ++ (names NullPlacement).map fun (name, m) => ("nulls_" ++ name, m)

/-- The refusal of a token that names no member. One that is no label at all is quoted itself, else
what has been read is. -/
def refusal (α : Type) [Labelled α] (t : String) (got : Value) : TextFault :=
  if isLowerSnake t then .notAmong (Labelled.subject α) (labels α) got
  else .notLowerSnake (Labelled.subject α) (.text t)

theorem ofLabel?_eq_some (hdistinct : (labels α).Nodup) :
    ofLabel? α t = some m ↔ (t, m) ∈ names α := by
  simp only [names, List.mem_map, Prod.mk.injEq]
  constructor
  · intro h
    exact ⟨m, List.mem_of_find?_eq_some h, by simpa using List.find?_some h, rfl⟩
  · rintro ⟨m, hm, rfl, rfl⟩
    obtain ⟨m', hm'⟩ : ∃ m', ofLabel? α (Labelled.label m) = some m' :=
      Option.isSome_iff_exists.mp (List.find?_isSome.mpr ⟨m, hm, decide_eq_true rfl⟩)
    rw [hm', List.inj_on_of_nodup_map hdistinct (List.mem_of_find?_eq_some hm') hm
      (by simpa using List.find?_some hm')]

theorem read_text (hsnake : ∀ l ∈ labels α, isLowerSnake l) : read α (.text s) =
    match ofLabel? α (token s) with
    | some m => .ok m
    | none => .error (refusal α (token s) (.text s)) := by
  have hread : read α (.text s) = if isLowerSnake (token s) then
      (match ofLabel? α (token s) with
      | some m => .ok m
      | none => .error (.notAmong (Labelled.subject α) (labels α) (.text s)))
      else .error (.notLowerSnake (Labelled.subject α) (.text (token s))) := by
    rw [read, requireLowerSnake, Value.plain]
    cases isLowerSnake (token s) <;> rfl
  rw [hread, refusal]
  cases hm : ofLabel? α (token s) with
  | none => split <;> rfl
  | some m =>
    rw [if_pos (hsnake _ ?_)]
    exact List.mem_map.mpr ⟨m, List.mem_of_find?_eq_some hm, by simpa using List.find?_some hm⟩

/-- How a reader answers to a text, given the names that it knows: spellings of these give their
members, everything else is refused, and the token of the text is answered like the text, up to what
a refusal quotes. -/
structure Answers (read : Value → Except TextFault α) (known : List (String × α)) (s : String) :
    Prop where
  accepts : ∀ m, read (.text s) = .ok m ↔ ∃ name, (name, m) ∈ known ∧ Spelling name s.toList
  refuses : (∀ name m, (name, m) ∈ known → ¬Spelling name s.toList) →
    ∃ t got, read (.text s) = .error (refusal α t got)
  token : (∃ m, read (.text s) = .ok m ∧ read (.text (token s)) = .ok m) ∨
    ∃ t got got', read (.text s) = .error (refusal α t got) ∧
      read (.text (Label.token s)) = .error (refusal α t got')

/-- A reader that looks up a form of the token knows the names whose form is a label. -/
theorem answers_of_form {read : Value → Except TextFault α} {known : List (String × α)}
    (form : String → String) (quoted : String → Value)
    (hread : ∀ s : String, (∀ c ∈ s.toList, c.toNat < 128) → read (.text s) =
      match ofLabel? α (form (token s)) with
      | some m => .ok m
      | none => .error (refusal α (form (token s)) (quoted s)))
    (hknown : ∀ t m, ofLabel? α (form t) = some m ↔ (t, m) ∈ known)
    (hworded : ∀ p ∈ known, IsWorded p.1) (hascii : ∀ c ∈ s.toList, c.toNat < 128) :
    Answers read known s := by
  have htoken := isToken_token hascii
  have hnext := hread (token s) fun c hc => (htoken c hc).1
  rw [htoken.token_eq] at hnext
  have hspelling : ∀ m, ofLabel? α (form (token s)) = some m ↔
      ∃ name, (name, m) ∈ known ∧ Spelling name s.toList := by
    intro m
    rw [hknown]
    constructor
    · exact fun h => ⟨_, h, (token_eq_iff hascii (hworded _ h)).mp rfl⟩
    · rintro ⟨name, h, hname⟩
      rwa [(token_eq_iff hascii (hworded _ h)).mpr hname]
  refine ⟨fun m => ?_, fun hnone => ?_, ?_⟩
  · rw [← hspelling, hread s hascii]
    cases ofLabel? α (form (token s)) <;> simp
  · rw [hread s hascii]
    cases hfound : ofLabel? α (form (token s)) with
    | none => exact ⟨_, _, rfl⟩
    | some m =>
      obtain ⟨name, h, hname⟩ := (hspelling m).mp hfound
      exact absurd hname (hnone name m h)
  · rw [hread s hascii, hnext]
    cases ofLabel? α (form (token s)) with
    | none => exact .inr ⟨_, _, _, rfl, rfl⟩
    | some m => exact .inl ⟨m, rfl, rfl⟩

theorem answers_read (hdistinct : (labels α).Nodup)
    (hlabels : ∀ l ∈ labels α, isLowerSnake l ∧ IsWorded l)
    (hascii : ∀ c ∈ s.toList, c.toNat < 128) : Answers (read α) (names α) s := by
  refine answers_of_form id .text
    (fun s _ => read_text fun l hl => (hlabels l hl).1) (fun t m => ofLabel?_eq_some hdistinct) ?_
    hascii
  rintro p hp
  obtain ⟨m, hm, rfl⟩ := List.mem_map.mp hp
  exact (hlabels _ (List.mem_map_of_mem hm)).2

theorem shortDirection_isToken (h : IsToken t) : IsToken (shortDirection t) := by
  unfold shortDirection
  split
  · decide
  · split
    · decide
    · exact h

theorem answers_readDirection (hascii : ∀ c ∈ s.toList, c.toNat < 128) :
    Answers readDirection directionNames s := by
  refine answers_of_form shortDirection
    (fun s => .text (shortDirection (token s))) (fun s hascii => ?_) (fun t m => ?_)
    (by decide) hascii
  · change read SortDirection (.text (shortDirection (token s))) = _
    rw [read_text (by decide), (shortDirection_isToken (isToken_token hascii)).token_eq]
  · rw [ofLabel?_eq_some (by decide), shortDirection]
    split_ifs <;> simp_all [names, directionNames, Labelled.members, Labelled.label]

/-- The announcing word is taken from the front of a token that has it. -/
theorem withoutNulls_cases (t : String) : (∃ rest, t = "nulls_" ++ rest ∧ withoutNulls t = rest) ∨
    (∀ rest, t ≠ "nulls_" ++ rest) ∧ withoutNulls t = t := by
  unfold withoutNulls
  split
  · rename_i rest ht
    refine .inl ⟨String.ofList rest, ?_, rfl⟩
    rw [← String.toList_inj, ht]
    simp
  · rename_i hnone
    refine .inr ⟨?_, rfl⟩
    rintro rest rfl
    exact hnone rest.toList (by rw [String.toList_append]; rfl)

theorem withoutNulls_isToken (h : IsToken t) : IsToken (withoutNulls t) := by
  obtain ⟨rest, rfl, hrest⟩ | ⟨-, ht⟩ := withoutNulls_cases t
  · rw [hrest]
    exact fun c hc => h c (by rw [String.toList_append]; simp [hc])
  · rwa [ht]

theorem answers_readNulls (hascii : ∀ c ∈ s.toList, c.toNat < 128) :
    Answers readNulls nullsNames s := by
  refine answers_of_form withoutNulls
    (fun s => .text (withoutNulls (token s))) (fun s hascii => ?_) (fun t m => ?_)
    (by decide) hascii
  · change read NullPlacement (.text (withoutNulls (token s))) = _
    rw [read_text (by decide), (withoutNulls_isToken (isToken_token hascii)).token_eq]
  · rw [ofLabel?_eq_some (by decide), nullsNames, List.mem_append]
    have hplain : ∀ p ∈ names NullPlacement, withoutNulls p.1 = p.1 := by decide
    obtain ⟨rest, rfl, hrest⟩ | ⟨hnone, ht⟩ := withoutNulls_cases t
    · rw [hrest]
      refine ⟨fun h => .inr (List.mem_map.mpr ⟨_, h, rfl⟩), ?_⟩
      rintro (h | h)
      · have hlength := congrArg String.length (hrest.symm.trans (hplain _ h))
        simp at hlength
      · obtain ⟨⟨name, m'⟩, hmem, heq⟩ := List.mem_map.mp h
        obtain ⟨hname, rfl⟩ := Prod.mk.inj heq
        rwa [← String.append_right_inj "nulls_" |>.mp hname]
    · rw [ht]
      refine ⟨.inl, fun h => h.resolve_right fun h => ?_⟩
      obtain ⟨_, -, heq⟩ := List.mem_map.mp h
      exact hnone _ (Prod.mk.inj heq).1.symm

/-- Which texts in ASCII the readers of column types, directions, null placements, frame units,
bound kinds and window functions accept, and as what. -/
theorem readers_answer {s : String} (hascii : ∀ c ∈ s.toList, c.toNat < 128) :
    Answers (read ColumnType) (names ColumnType) s ∧
    Answers readDirection directionNames s ∧
    Answers readNulls nullsNames s ∧
    Answers (read FrameUnit) (names FrameUnit) s ∧
    Answers (read BoundKind) (names BoundKind) s ∧
    Answers (read FunctionKind) (names FunctionKind) s :=
  ⟨answers_read (by decide) (by decide) hascii, answers_readDirection hascii,
    answers_readNulls hascii, answers_read (by decide) (by decide) hascii,
    answers_read (by decide) (by decide) hascii, answers_read (by decide) (by decide) hascii⟩

/-- A null placement in two words, with a hyphen among the blanks between them; no bound is called
so. -/
theorem readers_answer_nullsFirst : (∀ c ∈ "\tNulls -\nFIRST ".toList, c.toNat < 128) ∧
    readNulls (.text "\tNulls -\nFIRST ") = .ok .first ∧
    ∃ t got, read BoundKind (.text "\tNulls -\nFIRST ") = .error (refusal BoundKind t got) := by
  have hascii : ∀ c ∈ "\tNulls -\nFIRST ".toList, c.toNat < 128 := by simp
  obtain ⟨-, -, hnulls, -, hbounds, -⟩ := readers_answer hascii
  have hwords : words "nulls_first".toList = ["nulls".toList, "first".toList] := by decide
  have hspelling : Spelling "nulls_first" "\tNulls -\nFIRST ".toList :=
    ⟨"\t".toList, "Nulls".toList ++ (" -\n".toList ++ "FIRST".toList), " ".toList, rfl,
      List.all_eq_true.mp (by decide), List.all_eq_true.mp (by decide), hwords ▸
        .more rfl (.inr ⟨by decide, List.all_eq_true.mp (by decide)⟩) (.last rfl)⟩
  refine ⟨hascii, (hnulls.accepts .first).mpr ⟨"nulls_first", by decide, hspelling⟩,
    hbounds.refuses fun name m hname hspelled => ?_⟩
  -- a text has one token, and that of this one is no bound
  have htoken := (token_eq_iff hascii (by decide)).mpr hspelling
  have hlabel : IsWorded name :=
    (by decide : ∀ p ∈ names BoundKind, IsWorded p.1) _ hname
  rw [(token_eq_iff hascii hlabel).mpr hspelled] at htoken
  subst htoken
  have hlabels : "nulls_first" ∉ (names BoundKind).map Prod.fst := by decide
  exact absurd (List.mem_map_of_mem hname) hlabels

end Label
end OrderedRelations
