import Mathlib.Data.Finset.Card
import Mathlib.Data.Finset.Dedup
import Mathlib.Data.List.Count
import OrderedRelations.Proofs.Window.LeadingRows
import OrderedRelations.Proofs.Window.PickedRows
import OrderedRelations.Proofs.Window.SpanOrder
import OrderedRelations.Window.Evaluation

/-!
# Peers by counting

The peers of a row start behind the rows that stand before it and stop behind those that it does not
stand before. Both are numbers of rows, and so are ranks: no order among ties matters to them.
-/

namespace OrderedRelations

namespace Ranking

variable {α : Type} {before : α → α → Bool} {xs : List α} {a b : α}

/-- The number of elements that stand before an element ranks it. -/
theorem countP_lt_iff (h : Ranking before) (ha : a ∈ xs) :
    (xs.countP fun c => before c a) < (xs.countP fun c => before c b) ↔ before a b = true := by
  constructor
  · intro hlt
    by_contra hab
    have hle : (xs.countP fun c => before c b) ≤ xs.countP fun c => before c a :=
      List.countP_mono_left fun c _ hcb => h.of_before hcb (by simpa using hab)
    omega
  · intro hab
    have hsub : ∀ c, (before c a && before c b) = before c a := by
      intro c
      cases hca : before c a with
      | false => rfl
      | true => simpa using h.swap.of_before hab (h.asymm hca)
    have hself : before a a = false := by
      cases haa : before a a with
      | false => rfl
      | true => simpa [haa] using h.asymm haa
    calc (xs.countP fun c => before c a)
        = (xs.filter fun c => before c b).countP fun c => before c a := by
          rw [List.countP_filter]
          simp only [hsub]
      _ < (xs.filter fun c => before c b).length :=
          List.countP_lt_length_iff.mpr ⟨a, List.mem_filter.mpr ⟨ha, hab⟩, hself⟩
      _ = xs.countP fun c => before c b := List.countP_eq_length_filter.symm

section Sorted

variable (hsorted : xs.Pairwise fun a b => before b a = false)
include hsorted

theorem leads_before (h : Ranking before) (a : α) : Leads (fun b => before b a) xs :=
  hsorted.imp fun hcb hca => h.swap.of_before hca hcb

theorem leads_not_before (h : Ranking before) (a : α) : Leads (fun b => !before a b) xs :=
  hsorted.imp fun hcb hac => by simpa using h.negTrans (by simpa using hac) hcb

end Sorted
end Ranking

namespace Peers

/-- The run of a rank lies behind the smaller ranks and reaches over those that are not greater. -/
theorem IsRun.eq_counts {β : Type} [LinearOrder β] {ranks : List β} {i : ℕ} {x : β} {s : Span}
    (hsorted : ranks.Pairwise (· ≤ ·)) (hrun : IsRun ranks 0 x s) (hx : ranks[i]? = some x) :
    s = ⟨ranks.countP fun y => decide (y < x), ranks.countP fun y => decide (y ≤ x)⟩ := by
  have hfirst := hrun.le_first
  have hstop := hrun.stop_le
  have hi := (hrun.covers hx).mpr rfl
  have hbelow : (ranks.countP fun y => decide (y < x)) = s.first.toNat := by
    refine countP_of_cut (by omega) fun {j y} hy => ?_
    rw [decide_eq_true_iff, ← not_le (a := x) (b := y), ← hrun.first_le_iff hsorted hx hy]
    omega
  have hthrough : (ranks.countP fun y => decide (y ≤ x)) = s.stop.toNat := by
    refine countP_of_cut (by omega) fun {j y} hy => ?_
    rw [decide_eq_true_iff, ← hrun.lt_stop_iff hsorted hx hy]
    omega
  rw [hbelow, hthrough, Int.toNat_of_nonneg (by omega), Int.toNat_of_nonneg (by omega)]

/-- In sorted order, peers are counted: keys are the same where neither element stands before the
other. -/
theorem spans_eq_counts {α : Type} {before : α → α → Bool} (h : Ranking before)
    {keyOf : α → List Value} {xs : List α} (hsame : ∀ a ∈ xs, ∀ b ∈ xs,
      Value.sameKeys (keyOf a) (keyOf b) = true ↔ before a b = false ∧ before b a = false)
    (hsorted : xs.Pairwise fun a b => before b a = false) :
    spans (xs.map keyOf) =
      xs.map fun a => ⟨xs.countP fun b => before b a, xs.countP fun b => !before a b⟩ := by
  -- elements are ranked by the number of those that stand before them
  have hrank : ∀ a ∈ xs, ∀ b, (xs.countP fun c => before c a) < (xs.countP fun c => before c b) ↔
      before a b = true := fun a ha b => h.countP_lt_iff ha
  have hle : ∀ a, ∀ b ∈ xs, (xs.countP fun c => before c a) ≤ (xs.countP fun c => before c b) ↔
      before b a = false := by
    intro a b hb
    rw [← not_lt, hrank b hb a, Bool.not_eq_true]
  have hranks : xs.Pairwise fun a b =>
      (xs.countP fun c => before c a) ≤ xs.countP fun c => before c b :=
    hsorted.imp_of_mem fun _ hb hba => (hle _ _ hb).mpr hba
  have hkeys : ∀ a ∈ xs, ∀ b ∈ xs, Value.sameKeys (keyOf a) (keyOf b) = true ↔
      (xs.countP fun c => before c a) = xs.countP fun c => before c b := by
    intro a ha b hb
    rw [hsame a ha b hb, ← hle b a ha, ← hle a b hb, and_comm]
    exact Nat.le_antisymm_iff.symm
  refine List.ext_getElem (by rw [length_spans, List.length_map, List.length_map]) ?_
  intro i hi hi'
  rw [List.length_map] at hi'
  have hx : (xs.map fun a => xs.countP fun c => before c a)[i]? =
      some (xs.countP fun c => before c xs[i]) := by simp [hi']
  obtain ⟨s, hs, hrun⟩ := isRun_spans hkeys hranks hx
  obtain ⟨hi, rfl⟩ := List.getElem?_eq_some_iff.mp hs
  rw [hrun.eq_counts (List.pairwise_map.mpr hranks) hx, List.getElem_map, List.countP_map,
    List.countP_map]
  have hmem : xs[i] ∈ xs := List.getElem_mem hi'
  have hbelow : xs.countP ((fun y => decide (y < xs.countP fun c => before c xs[i])) ∘
      fun a => xs.countP fun c => before c a) = xs.countP fun b => before b xs[i] :=
    List.countP_congr fun b hb => by simp [hrank b hb]
  have hthrough : xs.countP ((fun y => decide (y ≤ xs.countP fun c => before c xs[i])) ∘
      fun a => xs.countP fun c => before c a) = xs.countP fun b => !before xs[i] b :=
    List.countP_congr fun b _ => by simp [hle b _ hmem]
  rw [hbelow, hthrough]

end Peers

namespace Relation

variable {r : Relation} {orderBy : List OrderKey} {positions : List ℕ}

/-- Positions in the order of the keys, ties in any order. -/
def InOrder (r : Relation) (orderBy : List OrderKey) (positions : List ℕ) : Prop :=
  positions.Pairwise fun i j => r.keysBefore orderBy j i = false

/-- The peers of a row among some rows: where they start and stop once the rows are in order. -/
def peersAmong (r : Relation) (orderBy : List OrderKey) (members : List ℕ) (i : ℕ) : Span :=
  ⟨members.countP fun j => r.keysBefore orderBy j i,
    members.countP fun j => !r.keysBefore orderBy i j⟩

theorem peersAmong_perm {members members' : List ℕ} (h : members.Perm members') (i : ℕ) :
    r.peersAmong orderBy members i = r.peersAmong orderBy members' i := by
  rw [peersAmong, peersAmong, h.countP_eq, h.countP_eq]

/-- Rows have the same order values where neither stands before the other. -/
theorem sameKeys_iff_tied (h : r.SortsBy orderBy) (i j : ℕ) :
    Value.sameKeys (orderBy.map fun k => r.sortCell k.column i)
        (orderBy.map fun k => r.sortCell k.column j) = true ↔
      r.keysBefore orderBy i j = false ∧ r.keysBefore orderBy j i = false := by
  induction orderBy with
  | nil => simp [Value.sameKeys, keysBefore]
  | cons k rest ih =>
    obtain ⟨type, hk⟩ := h k (by simp)
    rw [List.map_cons, List.map_cons, Value.sameKeys, Bool.and_eq_true,
      k.sameKey_iff_tied (hk i) (hk j), ih fun l hl => h l (by simp [hl])]
    simp only [keysBefore, Bool.or_eq_false_iff, Bool.and_eq_false_iff, Bool.not_eq_false']
    constructor
    · rintro ⟨⟨hij, hji⟩, hrest, hrest'⟩
      exact ⟨⟨hij, .inr hrest⟩, hji, .inr hrest'⟩
    · rintro ⟨⟨hij, hrest⟩, hji, hrest'⟩
      exact ⟨⟨hij, hji⟩, hrest.resolve_left (by simp [hji]), hrest'.resolve_left (by simp [hij])⟩

/-- The peers of rows in order are those among them. -/
theorem InOrder.peers_eq (h : r.SortsBy orderBy) (hordered : r.InOrder orderBy positions) :
    Peers.spans (positions.map fun i => orderBy.map fun k => r.sortCell k.column i) =
      positions.map (r.peersAmong orderBy positions) :=
  Peers.spans_eq_counts (ranking_keysBefore h) (fun i _ j _ => sameKeys_iff_tied h i j) hordered

end Relation

namespace Window

/-- How many different starts of peers lie behind one place and not behind another. -/
def startsBetween (peers : List Span) (low high : ℤ) : ℕ :=
  ((peers.map Span.first).toFinset.filter fun x => low < x ∧ x ≤ high).card

theorem startsBetween_perm {peers peers' : List Span} (h : peers.Perm peers') (low high : ℤ) :
    startsBetween peers low high = startsBetween peers' low high := by
  rw [startsBetween, startsBetween, List.toFinset_eq_of_perm _ _ (h.map Span.first)]

theorem startsBetween_self (peers : List Span) (x : ℤ) : startsBetween peers x x = 0 := by
  rw [startsBetween, Finset.card_eq_zero, Finset.filter_eq_empty_iff]
  exact fun y _ hy => by omega

theorem startsBetween_cons_of_le {low high : ℤ} {p : Span} (rest : List Span) (h : p.first ≤ low) :
    startsBetween (p :: rest) low high = startsBetween rest low high := by
  rw [startsBetween, startsBetween, List.map_cons, List.toFinset_cons, Finset.filter_insert,
    if_neg (by omega)]

/-- The first start behind a place is one of those that lie there. -/
theorem startsBetween_cons_of_lt {low high : ℤ} {p : Span} {rest : List Span} (hlow : low < p.first)
    (hhead : ∀ q ∈ rest, p.first ≤ q.first) (hhigh : p.first ≤ high) :
    startsBetween (p :: rest) low high = startsBetween rest p.first high + 1 := by
  have hinsert : ((p :: rest).map Span.first).toFinset.filter (fun x => low < x ∧ x ≤ high) =
      insert p.first ((rest.map Span.first).toFinset.filter fun x => p.first < x ∧ x ≤ high) := by
    ext x
    simp only [List.map_cons, List.toFinset_cons, Finset.mem_filter, Finset.mem_insert,
      List.mem_toFinset, List.mem_map]
    constructor
    · rintro ⟨rfl | ⟨q, hq, rfl⟩, -, hx⟩
      · exact .inl rfl
      · rcases eq_or_lt_of_le (hhead q hq) with heq | hlt
        · exact .inl heq.symm
        · exact .inr ⟨⟨q, hq, rfl⟩, hlt, hx⟩
    · rintro (rfl | ⟨hq, hlt, hx⟩)
      · exact ⟨.inl rfl, hlow, hhigh⟩
      · exact ⟨.inr hq, hlow.trans hlt, hx⟩
  rw [startsBetween, hinsert, Finset.card_insert_of_notMem (by simp), startsBetween]

/-- Dense ranks number the different starts of peers. -/
theorem denseRanks_eq {groups : ℕ} {first : ℤ} {peers : List Span}
    (hfirst : ∀ p ∈ peers, first ≤ p.first)
    (hsorted : peers.Pairwise fun p q => p.first ≤ q.first) :
    denseRanks groups first peers =
      peers.map fun p => groups + startsBetween peers first p.first := by
  induction peers generalizing groups first with
  | nil => rfl
  | cons p rest ih =>
    obtain ⟨hhead, htail⟩ := List.pairwise_cons.mp hsorted
    have hp := hfirst p (by simp)
    rw [denseRanks, List.map_cons]
    split
    · rename_i heq
      rw [ih (fun q hq => hfirst q (by simp [hq])) htail, heq, startsBetween_self]
      refine congrArg _ (List.map_congr_left fun q _ => ?_)
      rw [startsBetween_cons_of_le rest heq.le]
    · rename_i hne
      have hlt : first < p.first := by omega
      rw [ih hhead htail, startsBetween_cons_of_lt hlt hhead (Int.le_refl _), startsBetween_self]
      refine congrArg _ (List.map_congr_left fun q hq => ?_)
      rw [startsBetween_cons_of_lt hlt hhead (hhead q hq)]
      omega

end Window
end OrderedRelations
