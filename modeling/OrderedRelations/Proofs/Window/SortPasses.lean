import OrderedRelations.Proofs.Relation.Cell
import OrderedRelations.Proofs.Window.KeyOrder
import OrderedRelations.Window.Arrangement

/-!
# Sorting by several keys

One stable pass for each key, the last key first, leaves the positions in the lexicographic
order of all keys. Each pass settles one more key and keeps, among its ties, the order of the
keys behind it.
-/

namespace OrderedRelations

namespace Relation

/-- A cell in the form that sorting compares. -/
def sortCell (r : Relation) (name : String) (i : ℕ) : Value :=
  (r.cell name i).comparable?.getD .null

def sortColumn (r : Relation) (name : String) : List Value :=
  (List.range r.size).map (r.sortCell name)

/-- Whether one row stands before another by the first key that tells them apart. -/
def keysBefore (r : Relation) : List OrderKey → ℕ → ℕ → Bool
  | [], _, _ => false
  | k :: rest, i, j =>
    k.before (r.sortCell k.column i) (r.sortCell k.column j) ||
      (!k.before (r.sortCell k.column j) (r.sortCell k.column i) && r.keysBefore rest i j)

/-- The strict order of positions: by the keys, and complete ties by position. -/
def Precedes (r : Relation) (orderBy : List OrderKey) (i j : ℕ) : Prop :=
  r.keysBefore orderBy i j = true ∨ r.keysBefore orderBy j i = false ∧ i < j

instance (r : Relation) (orderBy : List OrderKey) (i j : ℕ) : Decidable (r.Precedes orderBy i j) :=
  inferInstanceAs (Decidable (_ ∨ _ ∧ _))

/-- Every cell of the order columns can be placed in the order of its column. -/
def SortsBy (r : Relation) (orderBy : List OrderKey) : Prop :=
  ∀ k ∈ orderBy, ∃ type, ∀ i, Value.Sortable type (r.sortCell k.column i)

theorem sortColumn_valueAt (r : Relation) (name : String) (i : ℕ) :
    Arrangement.valueAt (r.sortColumn name) i = r.sortCell name i := by
  by_cases hi : i < r.size
  · simp [Arrangement.valueAt, sortColumn, hi]
  · have hout := cell_of_size_le name (Nat.le_of_not_lt hi)
    simp [Arrangement.valueAt, sortColumn, hi, sortCell, hout]

theorem ranking_keysBefore {r : Relation} {orderBy : List OrderKey} (h : r.SortsBy orderBy) :
    Ranking (r.keysBefore orderBy) := by
  induction orderBy with
  | nil => exact ⟨fun hab => (nomatch hab), fun _ _ => rfl⟩
  | cons k rest ih =>
    obtain ⟨type, hk⟩ := h k (by simp)
    exact (k.ranking_before hk).andThen (ih fun l hl => h l (by simp [hl]))

theorem Precedes.not_before {r : Relation} {orderBy : List OrderKey} (h : r.SortsBy orderBy)
    {i j : ℕ} (hij : r.Precedes orderBy i j) : r.keysBefore orderBy j i = false :=
  hij.elim (ranking_keysBefore h).asymm And.left

theorem Precedes.asymm {r : Relation} {orderBy : List OrderKey} (h : r.SortsBy orderBy) {i j : ℕ}
    (hij : r.Precedes orderBy i j) : ¬ r.Precedes orderBy j i := by
  rintro (hji | ⟨hnot, hlt⟩)
  · simp [hij.not_before h] at hji
  · rcases hij with hij | ⟨-, hlt'⟩
    · simp [hnot] at hij
    · omega

theorem Precedes.trans {r : Relation} {orderBy : List OrderKey} (h : r.SortsBy orderBy)
    {i j k : ℕ} (hij : r.Precedes orderBy i j) (hjk : r.Precedes orderBy j k) :
    r.Precedes orderBy i k := by
  have hrank := ranking_keysBefore h
  have hkj := hjk.not_before h
  rcases hij with hij | ⟨hji, hlt⟩
  · exact .inl (hrank.of_before hij hkj)
  · rcases hjk with hjk | ⟨-, hlt'⟩
    · exact .inl (hrank.swap.of_before hjk hji)
    · exact .inr ⟨hrank.negTrans hkj hji, hlt.trans hlt'⟩

/-- Rows in order of arrival, sorted stably by all keys, stand in the strict order. -/
theorem SortsBy.pairwise_mergeSort {r : Relation} {orderBy : List OrderKey} (h : r.SortsBy orderBy)
    {rows : List ℕ} (harrived : rows.Pairwise (· < ·)) :
    (rows.mergeSort fun i j => !r.keysBefore orderBy j i).Pairwise (r.Precedes orderBy) :=
  (ranking_keysBefore h).pairwise_mergeSort (harrived.imp Nat.ne_of_lt) harrived

/-- The strict order leaves one way to sort some rows. -/
theorem SortsBy.eq_mergeSort {r : Relation} {orderBy : List OrderKey} (h : r.SortsBy orderBy)
    {rows sorted : List ℕ} (harrived : rows.Pairwise (· < ·)) (hperm : sorted.Perm rows)
    (hsorted : sorted.Pairwise (r.Precedes orderBy)) :
    sorted = rows.mergeSort fun i j => !r.keysBefore orderBy j i := by
  have hperm' := hperm.trans (List.mergeSort_perm rows fun i j => !r.keysBefore orderBy j i).symm
  refine hperm'.eq_of_pairwise ?_ hsorted (h.pairwise_mergeSort harrived)
  intro i j _ _ hij hji
  exact absurd hji (hij.asymm h)

/-- What the first key does not decide is decided by the others. -/
theorem Precedes.cons {r : Relation} {k : OrderKey} {rest : List OrderKey} {i j : ℕ}
    (h : k.before (r.sortCell k.column i) (r.sortCell k.column j) = true ∨
      k.before (r.sortCell k.column j) (r.sortCell k.column i) = false ∧ r.Precedes rest i j) :
    r.Precedes (k :: rest) i j := by
  rcases h with h | ⟨hji, h⟩
  · exact .inl (by simp [keysBefore, h])
  · cases hij : k.before (r.sortCell k.column i) (r.sortCell k.column j) with
    | true => exact .inl (by simp [keysBefore, hij])
    | false =>
      rcases h with h | ⟨h, hlt⟩
      · exact .inl (by simp [keysBefore, hji, h])
      · exact .inr ⟨by simp [keysBefore, hji, h], hlt⟩

end Relation

namespace Arrangement

theorem sortPass_perm (k : OrderKey) (values : List Value) (positions : List ℕ) :
    (sortPass k values positions).Perm positions := by
  unfold sortPass
  split
  · exact ((List.reverse_perm _).trans (List.mergeSort_perm _ _)).trans (List.reverse_perm _)
  · exact List.mergeSort_perm _ _

theorem sortPasses_perm (keyed : List (OrderKey × List Value)) (positions : List ℕ) :
    (sortPasses keyed positions).Perm positions := by
  induction keyed with
  | nil => exact .refl _
  | cons kv rest ih => exact (sortPass_perm _ _ _).trans ih

/-- A pass in either direction settles its key and keeps the order of ties. -/
theorem sortPass_pairwise {r : Relation} {k : OrderKey} {type : ColumnType}
    (hk : ∀ i, Value.Sortable type (r.sortCell k.column i)) {R : ℕ → ℕ → Prop}
    {positions : List ℕ} (hn : positions.Nodup) (hR : positions.Pairwise R) :
    (sortPass k (r.sortColumn k.column) positions).Pairwise fun i j =>
      k.before (r.sortCell k.column i) (r.sortCell k.column j) = true ∨
        k.before (r.sortCell k.column j) (r.sortCell k.column i) = false ∧ R i j := by
  have hrank := k.ranking_before hk
  simp only [sortPass, OrderKey.sortsBefore_eq, Relation.sortColumn_valueAt]
  cases hd : k.descending with
  | false => exact hrank.pairwise_mergeSort hn hR
  | true =>
    -- the backward list has its ties backwards, and the last reversal turns both again
    have hback : positions.reverse.Pairwise fun i j => R j i := List.pairwise_reverse.mpr hR
    exact List.pairwise_reverse.mpr
      (hrank.swap.pairwise_mergeSort (List.nodup_reverse.mpr hn) hback)

/-- The passes of all keys put positions that arrived in order into the order of the keys. -/
theorem sortPasses_pairwise {r : Relation} {orderBy : List OrderKey} (h : r.SortsBy orderBy)
    {positions : List ℕ} (harrived : positions.Pairwise (· < ·)) :
    (sortPasses (orderBy.map fun k => (k, r.sortColumn k.column)) positions).Pairwise
      (r.Precedes orderBy) := by
  induction orderBy with
  | nil => exact harrived.imp fun hlt => .inr ⟨rfl, hlt⟩
  | cons k rest ih =>
    obtain ⟨type, hk⟩ := h k (by simp)
    have hrest := ih fun l hl => h l (by simp [hl])
    have hn : positions.Nodup := harrived.imp Nat.ne_of_lt
    have hn' := (sortPasses_perm (rest.map fun k => (k, r.sortColumn k.column))
      positions).nodup_iff.mpr hn
    exact (sortPass_pairwise hk hn' hrest).imp Relation.Precedes.cons

/-- The passes come to one stable sort by all keys. -/
theorem sortPasses_eq_mergeSort {r : Relation} {orderBy : List OrderKey} (h : r.SortsBy orderBy)
    {positions : List ℕ} (harrived : positions.Pairwise (· < ·)) :
    sortPasses (orderBy.map fun k => (k, r.sortColumn k.column)) positions =
      positions.mergeSort fun i j => !r.keysBefore orderBy j i :=
  h.eq_mergeSort harrived (sortPasses_perm _ positions) (sortPasses_pairwise h harrived)

end Arrangement
end OrderedRelations
