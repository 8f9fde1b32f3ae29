import OrderedRelations.Proofs.Value.Equality
import OrderedRelations.Proofs.Value.Order
import OrderedRelations.Proofs.Window.StableSort
import OrderedRelations.Window.OrderKey

/-!
# The order of one key

An order key compares two values by direction alone, with nulls in the place it names: the flags
and reversals of sorting come to this.
-/

namespace OrderedRelations.OrderKey

/-- Whether one value stands before another: nulls tie with each other and stand at the named
end, other values follow the direction. -/
def before (k : OrderKey) (a b : Value) : Bool :=
  match a.isNull, b.isNull with
  | true, true => false
  | true, false => k.nullsFirst
  | false, true => !k.nullsFirst
  | false, false => if k.descending then (b.less? a).getD false else (a.less? b).getD false

theorem before_of_not_null (k : OrderKey) {a b : Value} (ha : a.isNull = false)
    (hb : b.isNull = false) : k.before a b =
      if k.descending then (b.less? a).getD false else (a.less? b).getD false := by
  simp [before, ha, hb]

/-- Sort keys put nulls at the named end once the backward pass has turned a descending key. -/
theorem sortsBefore_eq (k : OrderKey) (a b : Value) :
    k.sortsBefore a b = if k.descending then k.before b a else k.before a b := by
  cases ha : a.isNull <;> cases hb : b.isNull
  · simp [sortsBefore, sortFlag, before, ha, hb]
    split <;> rfl
  · cases hd : k.descending <;> cases hn : k.nullsFirst <;>
      simp [sortsBefore, sortFlag, before, ha, hb, hd, hn]
  · cases hd : k.descending <;> cases hn : k.nullsFirst <;>
      simp [sortsBefore, sortFlag, before, ha, hb, hd, hn]
  · have hnull : a.less? b = none := by
      rw [Value.isNull_iff.mp ha, Value.isNull_iff.mp hb]
      simp [Value.less?, Value.quantity?]
    simp [sortsBefore, sortFlag, before, ha, hb, hnull]

/-- Nulls are below or above all values, as the key says. -/
def level (k : OrderKey) (v : Value) : ℕ :=
  if v.isNull then (if k.nullsFirst then 0 else 2) else 1

open Value in
/-- A key compares levels first, then ranks in its direction. -/
theorem before_eq (k : OrderKey) {type : ColumnType} {a b : Value} (ha : Sortable type a)
    (hb : Sortable type b) : k.before a b = (decide (k.level a < k.level b) ||
      (!decide (k.level b < k.level a) &&
        if k.descending then decide (b.rank < a.rank) else decide (a.rank < b.rank))) := by
  cases hna : a.isNull <;> cases hnb : b.isNull
  · rw [before_of_not_null k hna hnb, ha.less?_eq hb hna hnb, hb.less?_eq ha hnb hna]
    simp [level, hna, hnb]
  · cases hn : k.nullsFirst <;> simp [before, level, hna, hnb, hn]
  · cases hn : k.nullsFirst <;> simp [before, level, hna, hnb, hn]
  · rw [isNull_iff.mp hna, isNull_iff.mp hnb]
    simp [before, isNull]

open Value in
/-- Values are the same key where neither stands before the other. -/
theorem sameKey_iff_tied (k : OrderKey) {type : ColumnType} {a b : Value} (ha : Sortable type a)
    (hb : Sortable type b) :
    a.sameKey b = true ↔ k.before a b = false ∧ k.before b a = false := by
  by_cases hnull : a.isNull = b.isNull
  · cases hna : a.isNull with
    | true =>
      rw [hna] at hnull
      rw [isNull_iff.mp hna, isNull_iff.mp hnull.symm]
      simp [sameKey, same, before, isNull]
    | false =>
      rw [hna] at hnull
      rw [before_of_not_null k hna hnull.symm, before_of_not_null k hnull.symm hna,
        ha.less?_eq hb hna hnull.symm, hb.less?_eq ha hnull.symm hna,
        ha.sameKey_eq hb hna hnull.symm]
      have hranks : a.rank = b.rank ↔ b.rank ≤ a.rank ∧ a.rank ≤ b.rank := by
        rw [and_comm]
        exact le_antisymm_iff
      cases k.descending <;> simp [hranks, and_comm]
  · have hdifferent : a.sameKey b = false := by
      by_contra hsame
      exact hnull (isNull_eq_of_sameKey (by simpa using hsame))
    rw [hdifferent]
    cases hna : a.isNull <;> cases hnb : b.isNull <;> simp [before, hna, hnb] at hnull ⊢

open Value in
/-- Values of one column are ranked by a key. -/
theorem ranking_before (k : OrderKey) {α : Type} {type : ColumnType} {f : α → Value}
    (hf : ∀ a, Sortable type (f a)) : Ranking fun a b => k.before (f a) (f b) := by
  have hlevel := Ranking.ofRank fun a => k.level (f a)
  have hrank := Ranking.ofRank fun a => (f a).rank
  simp only [before_eq k (hf _) (hf _)]
  cases k.descending with
  | false => exact hlevel.andThen hrank
  | true => exact hlevel.andThen hrank.swap

end OrderedRelations.OrderKey
