import Mathlib.Data.List.Forall2
import OrderedRelations.Digest.CanonicalJson
import OrderedRelations.Proofs.Text.Numerals

/-!
# Parts of canonical JSON that show their own end

A quoted text ends at the first quote that no backslash escapes, and a list at its closing
bracket. So whatever follows them, they are known from the text that they begin.
-/

namespace OrderedRelations.JsonTree
open Text (Undigited)

/-! Reading characters back. -/

def hexValue (c : Char) : ℕ := if c.isDigit then c.toNat - 48 else c.toNat - 87

/-- The character that a letter behind a backslash stands for. -/
def unescaped (c : Char) : Char :=
  if c = 'n' then '\n'
  else if c = 'r' then '\r'
  else if c = 't' then '\t'
  else if c = 'b' then Char.ofNat 8
  else if c = 'f' then Char.ofNat 12
  else c

/-- Reads one character, escaped or not, and gives the rest back. -/
def readChar? : List Char → Option (Char × List Char)
  | [] => none
  | '\\' :: 'u' :: _ :: _ :: high :: low :: rest =>
    some (Char.ofNat (16 * hexValue high + hexValue low), rest)
  | '\\' :: c :: rest => some (unescaped c, rest)
  | c :: rest => some (c, rest)

/-- A control character is written with two zeros and the two digits of its number. -/
theorem paddedHex_control : ∀ n < 0x20,
    Text.paddedHex 4 n = ['0', '0', (n / 16).digitChar, (n % 16).digitChar] ∧
      16 * hexValue (n / 16).digitChar + hexValue (n % 16).digitChar = n := by decide

theorem readChar?_escapeChar (c : Char) (rest : List Char) :
    readChar? (escapeChar c ++ rest) = some (c, rest) := by
  unfold escapeChar
  split
  · subst c
    rfl
  split
  · subst c
    rfl
  split
  · subst c
    rfl
  split
  · subst c
    rfl
  split
  · subst c
    rfl
  split
  · subst c
    rfl
  split
  · subst c
    rfl
  split
  · rename_i hcontrol
    obtain ⟨hhex, hvalue⟩ := paddedHex_control c.toNat hcontrol
    simp [hhex, readChar?, hvalue]
  · simp_all [readChar?]

/-- A written character is no closing quote. -/
theorem escapeChar_append_ne_quote (c : Char) (cs rest : List Char) :
    escapeChar c ++ cs ≠ '"' :: rest := by
  intro h
  have hread := readChar?_escapeChar c cs
  have hquote : readChar? ('"' :: rest) = some ('"', rest) := rfl
  rw [h, hquote] at hread
  -- the quote itself is written with a backslash
  cases hread
  simp [escapeChar] at h

theorem flatMap_escapeChar_inj {cs ds rest rest' : List Char}
    (h : cs.flatMap escapeChar ++ '"' :: rest = ds.flatMap escapeChar ++ '"' :: rest') :
    cs = ds ∧ rest = rest' := by
  induction cs generalizing ds with
  | nil =>
    cases ds with
    | nil => exact ⟨rfl, (List.cons.inj h).2⟩
    | cons d ds =>
      rw [List.flatMap_cons, List.append_assoc] at h
      exact absurd h.symm (escapeChar_append_ne_quote d _ rest)
  | cons c cs ih =>
    cases ds with
    | nil =>
      rw [List.flatMap_cons, List.append_assoc] at h
      exact absurd h (escapeChar_append_ne_quote c _ rest')
    | cons d ds =>
      have hread := congrArg readChar? h
      rw [List.flatMap_cons, List.flatMap_cons, List.append_assoc, List.append_assoc,
        readChar?_escapeChar, readChar?_escapeChar] at hread
      obtain ⟨rfl, hrest⟩ := Prod.mk.inj (Option.some.inj hread)
      obtain ⟨rfl, heq⟩ := ih hrest
      exact ⟨rfl, heq⟩

/-- A text tells the quoted text that it begins with from what follows. -/
theorem quote_append_inj {s t : String} {rest rest' : List Char}
    (h : quote s ++ rest = quote t ++ rest') : s = t ∧ rest = rest' := by
  have hbody : s.toList.flatMap escapeChar ++ '"' :: rest =
      t.toList.flatMap escapeChar ++ '"' :: rest' := by simpa [quote] using h
  obtain ⟨hlist, hrest⟩ := flatMap_escapeChar_inj hbody
  exact ⟨String.toList_inj.mp hlist, hrest⟩

/-! Lists between brackets. -/

section Lists

variable {α : Type} {write : α → List Char} {close : Char} {rest rest' : List Char}

/-- What stands behind the first item of a list. -/
def behindItem (write : α → List Char) (close : Char) (rest : List Char) : List α → List Char
  | [] => close :: rest
  | a :: items => ',' :: (commaSeparated ((a :: items).map write) ++ close :: rest)

theorem commaSeparated_cons (a : α) (items : List α) :
    commaSeparated ((a :: items).map write) ++ close :: rest =
      write a ++ behindItem write close rest items := by
  cases items <;> simp [commaSeparated, behindItem]

theorem undigited_behindItem (hclose : close.isDigit = false) (items : List α) :
    Undigited (behindItem write close rest items) := by
  cases items with
  | nil => exact Text.undigited_cons.mpr hclose
  | cons a items => exact Text.undigited_cons.mpr rfl

/-- Lists written alike have items that are written alike, one by one: no item begins with the
closing bracket, and each is told from what follows, which is never a digit. -/
theorem commaSeparated_append_inj {R : α → α → Prop} {as bs : List α} (hcomma : close ≠ ',')
    (hdigit : close.isDigit = false)
    (hopen : ∀ a ∈ as ++ bs, ∀ tail rest, write a ++ tail ≠ close :: rest)
    (hitem : ∀ a ∈ as, ∀ b ∈ bs, ∀ tail tail', Undigited tail → Undigited tail' →
      write a ++ tail = write b ++ tail' → R a b ∧ tail = tail')
    (h : commaSeparated (as.map write) ++ close :: rest =
      commaSeparated (bs.map write) ++ close :: rest') :
    List.Forall₂ R as bs ∧ rest = rest' := by
  induction as generalizing bs with
  | nil =>
    cases bs with
    | nil => exact ⟨.nil, (List.cons.inj h).2⟩
    | cons b bs =>
      rw [commaSeparated_cons b bs] at h
      exact absurd h.symm (hopen b (by simp) _ _)
  | cons a as ih =>
    rw [commaSeparated_cons a as] at h
    cases bs with
    | nil => exact absurd h (hopen a (by simp) _ _)
    | cons b bs =>
      rw [commaSeparated_cons b bs] at h
      obtain ⟨hhead, htail⟩ := hitem a (by simp) b (by simp) _ _
        (undigited_behindItem hdigit as) (undigited_behindItem hdigit bs) h
      have hlists : commaSeparated (as.map write) ++ close :: rest =
          commaSeparated (bs.map write) ++ close :: rest' := by
        cases as with
        | nil =>
          cases bs with
          | nil => exact htail
          | cons b' bs => exact absurd (List.cons.inj htail).1 hcomma
        | cons a' as =>
          cases bs with
          | nil => exact absurd (List.cons.inj htail).1.symm hcomma
          | cons b' bs => exact (List.cons.inj htail).2
      obtain ⟨hall, hrest⟩ := ih
        (fun c hc => hopen c (by simp only [List.mem_append, List.mem_cons] at hc ⊢; tauto))
        (fun c hc d hd => hitem c (by simp [hc]) d (by simp [hd])) hlists
      exact ⟨.cons hhead hall, hrest⟩

end Lists

end OrderedRelations.JsonTree
