import Mathlib.Algebra.Order.Ring.Cast
import Mathlib.Algebra.Order.Ring.Rat
import Mathlib.Data.List.Lex
import Mathlib.Data.Prod.Lex
import OrderedRelations.Proofs.Calendar.Order
import OrderedRelations.Relation.Basic

/-!
# Order of values in one column

Two values of one column that are not null are alike: they are of one kind. Alike values in
comparable form have an order, and apart from what is not a number each has a rank on one line
that the order follows.
-/

namespace OrderedRelations

theorem Text.lessByCodePoint_iff {as bs : List Char} :
    lessByCodePoint as bs = true ↔ as.map Char.toNat < bs.map Char.toNat := by
  induction as generalizing bs with
  | nil => cases bs <;> simp [lessByCodePoint]
  | cons a as ih =>
    cases bs with
    | nil => simp [lessByCodePoint]
    | cons b bs =>
      have hab : a = b ↔ a.toNat = b.toNat := ⟨fun h => h ▸ rfl, fun h => Char.toNat_inj.mp h⟩
      simp [lessByCodePoint, List.cons_lt_cons_iff, ih, hab]

namespace Value

/-- Values of one kind that a column can hold side by side. -/
inductive Alike : Value → Value → Prop
  | bool (b c : Bool) : Alike (bool b) (bool c)
  | int (m n : ℤ) : Alike (int m) (int n)
  | float (x y : Binary64) : Alike (float x) (float y)
  | text (s t : String) : Alike (text s) (text t)
  | date (c d : Date) : Alike (date c) (date d)
  | datetime (s t : DateTime) : Alike (datetime s) (datetime t)

theorem alike_of_conforms {type : ColumnType} {a b : Value} (ha : a.conforms type = true)
    (hb : b.conforms type = true) (hna : a.isNull = false) (hnb : b.isNull = false) :
    Alike a b := by
  cases a <;> simp [conforms, isNull] at ha hna <;> subst ha <;>
    cases b <;> simp [conforms, isNull] at hb hnb <;> constructor

/-- A value without an offset from UTC, as sorting compares it. -/
def isNaive : Value → Bool
  | datetime t => !t.isAware
  | _ => true

end Value

theorem DateTime.isAware_of_utc? {t u : DateTime} (h : t.utc? = some u) : u.isAware = false := by
  unfold utc? at h
  split at h
  · rename_i ht
    cases h
    simp [isAware, ht]
  · simp only [ofReading?, Option.bind_eq_some_iff, Option.dite_none_right_eq_some,
      Option.some.injEq] at h
    obtain ⟨d, -, -, rfl⟩ := h
    rfl

namespace Value

theorem isNaive_of_comparable? {v w : Value} (h : v.comparable? = some w) : w.isNaive = true := by
  cases v with
  | datetime t =>
    obtain ⟨u, hu, rfl⟩ := Option.map_eq_some_iff.mp h
    simp [isNaive, DateTime.isAware_of_utc? hu]
  | _ => cases h; rfl

theorem conforms_of_comparable? {v w : Value} {type : ColumnType} (h : v.comparable? = some w)
    (hv : v.conforms type = true) : w.conforms type = true := by
  cases v with
  | datetime t =>
    obtain ⟨u, -, rfl⟩ := Option.map_eq_some_iff.mp h
    exact hv
  | _ => cases h; exact hv

@[simp] theorem comparable?_null : comparable? null = some null := rfl

theorem isNull_of_comparable? {v w : Value} (h : v.comparable? = some w) :
    w.isNull = v.isNull := by
  cases v with
  | datetime t =>
    obtain ⟨u, -, rfl⟩ := Option.map_eq_some_iff.mp h
    rfl
  | _ => cases h; rfl

theorem isNaN_of_comparable? {v w : Value} (h : v.comparable? = some w) :
    w.isNaN = v.isNaN := by
  cases v with
  | datetime t =>
    obtain ⟨u, -, rfl⟩ := Option.map_eq_some_iff.mp h
    rfl
  | _ => cases h; rfl

/-- Values in comparable form have an order, what is not a number included. -/
theorem Alike.less?_isSome {a b : Value} (h : Alike a b) (ha : a.isNaive = true)
    (hb : b.isNaive = true) : (a.less? b).isSome = true := by
  cases h with
  | datetime s t =>
    simp only [isNaive, Bool.not_eq_true'] at ha hb
    simp [less?, ha, hb]
  | _ => simp [less?, quantity?]

/-- A point in the order of a column: below, among or above the rationals, where numbers, days
and moments lie, and then a text by its code points. -/
abbrev Rank := (ℤ ×ₗ ℚ) ×ₗ List ℕ

/-- The rank of a number, a day or a moment. -/
def numberRank (place : ℤ × ℚ) : Rank := toLex (toLex place, [])

def rank : Value → Rank
  | bool b => numberRank (0, if b then 1 else 0)
  | int n => numberRank (0, n)
  | float x => numberRank (x.place?.getD (0, 0))
  | text s => toLex (toLex (0, 0), s.toList.map Char.toNat)
  | date d => numberRank (0, d.ordinal)
  | datetime t => numberRank (0, t.reading)
  | _ => numberRank (0, 0)

theorem numberRank_lt {p q : ℤ × ℚ} :
    numberRank p < numberRank q ↔ p.1 < q.1 ∨ p.1 = q.1 ∧ p.2 < q.2 := by
  simp [numberRank, Prod.Lex.toLex_lt_toLex]

theorem numberRank_inj {p q : ℤ × ℚ} : numberRank p = numberRank q ↔ p = q := by
  simp [numberRank]

/-- A value that sorting can place: in comparable form, and not what is not a number. -/
structure Sortable (type : ColumnType) (v : Value) : Prop where
  typed : v.conforms type = true
  naive : v.isNaive = true
  number : v.isNaN = false

theorem sortable_null (type : ColumnType) : Sortable type null := ⟨rfl, rfl, rfl⟩

theorem exists_place_of_isNaN {x : Binary64} (h : (float x).isNaN = false) :
    ∃ p, x.place? = some p := by
  cases x with
  | nan payload => simp [isNaN] at h
  | infinity negative => cases negative <;> exact ⟨_, rfl⟩
  | _ => exact ⟨_, rfl⟩

/-- The order of alike values is the order of their ranks. -/
theorem Sortable.less?_eq {type : ColumnType} {a b : Value} (ha : Sortable type a)
    (hb : Sortable type b) (hna : a.isNull = false) (hnb : b.isNull = false) :
    a.less? b = some (decide (a.rank < b.rank)) := by
  cases alike_of_conforms ha.typed hb.typed hna hnb with
  | bool b c => cases b <;> cases c <;> simp [less?, quantity?, rank, numberRank_lt]
  | int m n => simp [less?, quantity?, rank, numberRank_lt]
  | float x y =>
    obtain ⟨p, hp⟩ := exists_place_of_isNaN ha.number
    obtain ⟨q, hq⟩ := exists_place_of_isNaN hb.number
    simp [less?, quantity?, Quantity.less, Quantity.place?, hp, hq, Quantity.placeLess, rank,
      numberRank_lt]
  | text s t =>
    have h := @Text.lessByCodePoint_iff s.toList t.toList
    simp [less?, Text.less, rank, Prod.Lex.toLex_lt_toLex, ← h]
  | date c d =>
    have h : c.less d = decide (c.ordinal < d.ordinal) := by simp [← Date.less_iff]
    simp [less?, rank, numberRank_lt, h]
  | datetime s t =>
    have hs := ha.naive
    have ht := hb.naive
    simp only [isNaive, Bool.not_eq_true'] at hs ht
    have h : s.readingLess t = decide (s.reading < t.reading) := by
      simp [← DateTime.readingLess_iff]
    simp [less?, hs, ht, rank, numberRank_lt, h]

/-- Alike values are equal keys where their ranks agree. -/
theorem Sortable.sameKey_eq {type : ColumnType} {a b : Value} (ha : Sortable type a)
    (hb : Sortable type b) (hna : a.isNull = false) (hnb : b.isNull = false) :
    a.sameKey b = decide (a.rank = b.rank) := by
  cases alike_of_conforms ha.typed hb.typed hna hnb with
  | bool b c => cases b <;> cases c <;> simp [sameKey, same, quantity?, rank, numberRank_inj]
  | int m n => simp [sameKey, same, quantity?, rank, numberRank_inj]
  | float x y =>
    obtain ⟨p, hp⟩ := exists_place_of_isNaN ha.number
    obtain ⟨q, hq⟩ := exists_place_of_isNaN hb.number
    have hkey : (float x).sameKey (float y) = (float x).same (float y) := by
      cases x <;> cases y <;> first | rfl | simp [Binary64.place?] at hp hq
    simp [hkey, same, quantity?, Quantity.same, Quantity.place?, hp, hq, rank, numberRank_inj]
  | text s t =>
    have h : s = t ↔ s.toList.map Char.toNat = t.toList.map Char.toNat := by
      rw [List.map_inj_right fun a b hab => Char.toNat_inj.mp hab, String.toList_inj]
    simp [sameKey, same, rank, h]
  | date c d => simp [sameKey, same, rank, numberRank_inj, Date.ordinal_inj]
  | datetime s t =>
    have hs := ha.naive
    have ht := hb.naive
    simp only [isNaive, Bool.not_eq_true'] at hs ht
    simp [sameKey, same, DateTime.same, hs, ht, rank, numberRank_inj, DateTime.reading_inj]

end Value
end OrderedRelations
