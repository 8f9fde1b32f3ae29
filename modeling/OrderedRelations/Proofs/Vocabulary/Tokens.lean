import Mathlib.Data.List.Basic
import OrderedRelations.Vocabulary.Label

/-!
# Tokens of plain words

In ASCII every character has its own lower-case letter. A word of it that neither starts nor ends
with a blank and has no gap inside is its own token, up to case.
-/

namespace OrderedRelations

namespace Text

theorem toLower_of_isBlank {c : Char} (h : isBlank c) : c.toLower = c := by
  have hupper : ¬('A'.toNat ≤ c.toNat ∧ c.toNat ≤ 'Z'.toNat) := by
    simp [isBlank, isWhiteSpace, inRanges, whiteSpaceRanges] at h
    simp
    omega
  exact dif_neg hupper

/-- Only letters of ASCII have their lower case there. -/
theorem toNat_lt_of_toLower {c : Char} (h : c.toLower.toNat < 128) : c.toNat < 128 := by
  by_cases hupper : c.val ≥ 'A'.val ∧ c.val ≤ 'Z'.val
  · exact Nat.lt_of_le_of_lt (UInt32.le_iff_toNat_le.mp hupper.2) (by decide)
  · rwa [show c.toLower = c from dif_neg hupper] at h

theorem lowerChar_of_lt {c : Char} (h : c.toNat < 128) : lowerChar c = c.toLower := if_pos h

/-- What stands around a character matters for none in ASCII. -/
theorem lowerFrom_of_lt {cs : List Char} (h : ∀ c ∈ cs, c.toNat < 128) (passed : List Char) :
    lowerFrom passed cs = cs.map Char.toLower := by
  induction cs generalizing passed with
  | nil => rfl
  | cons c cs ih =>
    obtain ⟨hc, hcs⟩ := List.forall_mem_cons.mp h
    have hsigma : c ≠ 'Σ' := by rintro rfl; exact absurd hc (by decide)
    have hdotted : c ≠ 'İ' := by rintro rfl; exact absurd hc (by decide)
    rw [lowerFrom, if_neg hsigma, if_neg hdotted, lowerChar_of_lt hc, ih hcs, List.map_cons,
      List.singleton_append]

theorem lower_of_lt {cs : List Char} (h : ∀ c ∈ cs, c.toNat < 128) :
    lower cs = cs.map Char.toLower :=
  lowerFrom_of_lt h []

theorem dropWhile_isBlank_eq_self {cs : List Char} (h : ∀ c ∈ cs, isBlank c = false) :
    cs.dropWhile isBlank = cs := by
  cases cs with
  | nil => rfl
  | cons c cs => rw [List.dropWhile_cons_of_neg (by simp [h c List.mem_cons_self])]

theorem stripBlanks_eq_self {cs : List Char} (h : ∀ c ∈ cs, isBlank c = false) :
    stripBlanks cs = cs := by
  rw [stripBlanks, strip, dropWhile_isBlank_eq_self h,
    dropWhile_isBlank_eq_self fun c hc => h c (List.mem_reverse.mp hc), List.reverse_reverse]

end Text

namespace Label

theorem toLower_of_isGap {c : Char} (h : isGap c) : c.toLower = c := by
  rcases Bool.or_eq_true_iff.mp h with hblank | hhyphen
  · exact Text.toLower_of_isBlank hblank
  · rw [eq_of_beq hhyphen]
    rfl

theorem joinGaps_eq_self {cs : List Char} (h : ∀ c ∈ cs, isGap c = false) (inGap : Bool) :
    joinGaps inGap cs = cs := by
  induction cs generalizing inGap with
  | nil => rfl
  | cons c cs ih =>
    obtain ⟨hc, hcs⟩ := List.forall_mem_cons.mp h
    rw [joinGaps, if_neg (by simp [hc]), ih hcs]

/-- A word in ASCII differs from its token by case alone. -/
theorem token_ofList {cs : List Char} (hascii : ∀ c ∈ cs, c.toNat < 128)
    (hgap : ∀ c ∈ cs, isGap c = false) :
    token (String.ofList cs) = String.ofList (cs.map Char.toLower) := by
  have hblank : ∀ c ∈ cs, Text.isBlank c = false := fun c hc =>
    (Bool.or_eq_false_iff.mp (hgap c hc)).1
  rw [token, String.toList_ofList, Text.stripBlanks_eq_self hblank, joinGaps_eq_self hgap,
    Text.lower_of_lt hascii]

/-- A label in ASCII without gaps. -/
def isPlain (label : String) : Bool :=
  label.toList.all fun c => decide (c.toNat < 128) && !isGap c

theorem of_isPlain {label : String} (h : isPlain label) {c : Char} (hc : c ∈ label.toList) :
    c.toNat < 128 ∧ isGap c = false := by
  simpa using List.all_eq_true.mp h c hc

theorem isBlank_of_isPlain {label : String} (h : isPlain label) {c : Char} (hc : c ∈ label.toList) :
    Text.isBlank c = false :=
  (Bool.or_eq_false_iff.mp (of_isPlain h hc).2).1

/-- A plain label is the token of each of its spellings that differ by case alone. -/
theorem token_of_map_toLower {label : String} {cs : List Char} (hplain : isPlain label)
    (h : cs.map Char.toLower = label.toList) : token (String.ofList cs) = label := by
  have hlower : ∀ c ∈ cs, c.toLower.toNat < 128 ∧ isGap c.toLower = false := fun c hc =>
    of_isPlain hplain (h ▸ List.mem_map_of_mem hc)
  rw [token_ofList, h, String.ofList_toList]
  · exact fun c hc => Text.toNat_lt_of_toLower (hlower c hc).1
  · refine fun c hc => Bool.eq_false_iff.mpr fun hgap => ?_
    have := (hlower c hc).2
    rw [toLower_of_isGap hgap, hgap] at this
    cases this

end Label
end OrderedRelations
