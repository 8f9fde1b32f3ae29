import Mathlib.Logic.Relation
import OrderedRelations.Proofs.Hierarchy.JoinPath

/-!
# Parent walks

Where no two rows have one identity each row has at most one parent row, and the rows above it form
a single walk. The join paths that end in a row are the beginnings of its walk, read backwards, up
to an anchor.
-/

namespace OrderedRelations.Hierarchy

variable (base : Relation) (ids parents : List String)

/-- The row whose identity is the parent of row `i`. -/
def parentRow (i : ℕ) : Option ℕ :=
  (List.range base.size).find? fun p => Value.sameKeys (base.cells parents i) (base.cells ids p)

/-- A walk up from row `i`, each row followed by its parent row, that meets no row twice. -/
structure Climb (i : ℕ) (walk : List ℕ) : Prop where
  start : walk.head? = some i
  upward : walk.IsChain fun a b => parentRow base ids parents a = some b
  simple : walk.Nodup

/-- The walk up from row `i` that stops only where there is no parent row, or just before a row
comes again. -/
structure ParentWalk (i : ℕ) (walk : List ℕ) : Prop extends Climb base ids parents i walk where
  stopped : ∀ last ∈ walk.getLast?, ∀ p ∈ parentRow base ids parents last, p ∈ walk

/-- No row is above itself. -/
def Acyclic : Prop :=
  ∀ i, ¬ Relation.TransGen (fun a b => parentRow base ids parents a = some b) i i

variable {base ids parents}

theorem lt_size_of_parentRow {i p : ℕ} (h : parentRow base ids parents i = some p) :
    p < base.size :=
  List.mem_range.mp (List.mem_of_find?_eq_some h)

theorem sameKeys_parentRow {i p : ℕ} (h : parentRow base ids parents i = some p) :
    Value.sameKeys (base.cells parents i) (base.cells ids p) = true :=
  List.find?_some (p := fun p => Value.sameKeys (base.cells parents i) (base.cells ids p)) h

/-- Of two walks from one row along one function, one goes on from the other. -/
theorem prefix_or_prefix {f : ℕ → Option ℕ} {v w : List ℕ}
    (hv : v.IsChain fun a b => f a = some b) (hw : w.IsChain fun a b => f a = some b)
    (hhead : v.head? = w.head?) : v <+: w ∨ w <+: v := by
  induction v generalizing w with
  | nil => exact .inl List.nil_prefix
  | cons a v ih =>
    cases w with
    | nil => exact .inr List.nil_prefix
    | cons b w =>
      obtain rfl : a = b := by simpa using hhead
      cases v with
      | nil => exact .inl (by simp)
      | cons c v =>
        cases w with
        | nil => exact .inr (by simp)
        | cons d w =>
          obtain ⟨hac, hv⟩ := List.isChain_cons_cons.mp hv
          obtain ⟨had, hw⟩ := List.isChain_cons_cons.mp hw
          obtain rfl : c = d := Option.some.inj (hac.symm.trans had)
          exact (ih hv hw rfl).imp (List.prefix_cons_inj a).mpr (List.prefix_cons_inj a).mpr

namespace Climb

variable {i : ℕ} {walk : List ℕ}

theorem ne_nil (h : Climb base ids parents i walk) : walk ≠ [] := by
  rintro rfl
  cases h.start

theorem of_prefix (h : Climb base ids parents i walk) {shorter : List ℕ} (hne : shorter ≠ [])
    (hle : shorter <+: walk) : Climb base ids parents i shorter where
  start := by
    obtain ⟨rest, rfl⟩ := hle
    rw [← h.start, List.head?_append_of_ne_nil _ hne]
  upward := h.upward.prefix hle
  simple := h.simple.sublist hle.sublist

theorem inside (h : Climb base ids parents i walk) (hi : i < base.size) :
    ∀ a ∈ walk, a < base.size := by
  obtain ⟨rest, rfl⟩ : ∃ rest, walk = i :: rest := by
    obtain ⟨a, rest, rfl⟩ := List.exists_cons_of_ne_nil h.ne_nil
    exact ⟨rest, by simpa using h.start⟩
  intro a ha
  rcases List.mem_cons.mp ha with rfl | ha
  · exact hi
  · obtain ⟨n, hn, rfl⟩ := List.getElem_of_mem ha
    exact lt_size_of_parentRow (h.upward.getElem n (by simpa using hn))

/-- The rows of a climb are above each other in the order of the climb. -/
theorem pairwise_above (h : Climb base ids parents i walk) :
    walk.Pairwise (Relation.TransGen fun a b => parentRow base ids parents a = some b) :=
  List.isChain_iff_pairwise.mp (h.upward.imp fun _ _ => .single)

/-- A climb is a beginning of the whole walk. -/
theorem prefix_walk {climb : List ℕ} (hclimb : Climb base ids parents i climb)
    (h : ParentWalk base ids parents i walk) : climb <+: walk := by
  rcases prefix_or_prefix hclimb.upward h.upward (hclimb.start.trans h.start.symm) with hle |
    ⟨rest, rfl⟩
  · exact hle
  · cases rest with
    | nil => simp
    | cons p rest =>
      -- going on from the end of the walk comes back to one of its rows
      obtain ⟨last, hlast⟩ := Option.isSome_iff_exists.mp (List.getLast?_isSome.mpr h.ne_nil)
      have hparent : parentRow base ids parents last = some p :=
        (List.isChain_append.mp hclimb.upward).2.2 last hlast p rfl
      have hagain : p ∈ walk := h.stopped last hlast p hparent
      exact absurd rfl ((List.nodup_append.mp hclimb.simple).2.2 p hagain p (by simp))

/-- A climb that can go on goes on. -/
theorem snoc (h : Climb base ids parents i walk) {last p : ℕ} (hlast : last ∈ walk.getLast?)
    (hparent : parentRow base ids parents last = some p) (hnew : p ∉ walk) :
    Climb base ids parents i (walk ++ [p]) where
  start := by rw [List.head?_append_of_ne_nil _ h.ne_nil, h.start]
  upward := by
    refine List.isChain_append.mpr ⟨h.upward, List.isChain_singleton p, ?_⟩
    intro a ha b hb
    obtain rfl := Option.mem_unique hlast ha
    obtain rfl : p = b := by simpa using hb
    exact hparent
  simple := by
    rw [List.nodup_append]
    exact ⟨h.simple, List.nodup_singleton p, fun a ha b hb hab =>
      hnew (List.mem_singleton.mp hb ▸ hab ▸ ha)⟩

end Climb

namespace ParentWalk

variable {i : ℕ} {walk : List ℕ}

theorem unique (h : ParentWalk base ids parents i walk) {other : List ℕ}
    (h' : ParentWalk base ids parents i other) : other = walk :=
  (h'.prefix_walk h).eq_of_length_le (h.prefix_walk h').length_le

theorem mem_of_parentRow (h : ParentWalk base ids parents i walk) {a p : ℕ} (ha : a ∈ walk)
    (hp : parentRow base ids parents a = some p) : p ∈ walk := by
  obtain ⟨below, above, rfl⟩ := List.append_of_mem ha
  cases above with
  | nil => exact h.stopped a (by simp) p hp
  | cons b above =>
    have hnext := (List.isChain_cons_cons.mp (List.isChain_append.mp h.upward).2.1).1
    obtain rfl : b = p := Option.some.inj (hnext.symm.trans hp)
    simp

/-- The walk of a row has exactly the rows above it and the row itself. -/
theorem mem_iff (h : ParentWalk base ids parents i walk) {a : ℕ} :
    a ∈ walk ↔ Relation.ReflTransGen (fun a b => parentRow base ids parents b = some a) a i := by
  obtain ⟨rest, rfl⟩ : ∃ rest, walk = i :: rest := by
    obtain ⟨a, rest, rfl⟩ := List.exists_cons_of_ne_nil h.ne_nil
    exact ⟨rest, by simpa using h.start⟩
  constructor
  · intro ha
    rcases List.mem_cons.mp ha with rfl | ha
    · exact .refl
    · exact (Relation.transGen_swap.mpr
        ((List.pairwise_cons.mp h.pairwise_above).1 a ha)).to_reflTransGen
  · intro hreach
    induction hreach using Relation.ReflTransGen.head_induction_on with
    | refl => exact List.mem_cons_self
    | head hparent _ ih => exact h.mem_of_parentRow ih hparent

/-- Below the end of a beginning of the walk that is not all of it stands its parent row. -/
theorem exists_parentRow (h : ParentWalk base ids parents i walk) {climb : List ℕ}
    (hle : climb <+: walk) (hne : climb ≠ walk) {a : ℕ} (ha : climb.getLast? = some a) :
    ∃ p, parentRow base ids parents a = some p := by
  obtain ⟨rest, rfl⟩ := hle
  cases rest with
  | nil => exact absurd (List.append_nil climb).symm hne
  | cons p rest => exact ⟨p, (List.isChain_append.mp h.upward).2.2 a ha p rfl⟩

/-- Where no row is above itself a walk ends at a row without a parent row. -/
theorem parentRow_last (h : ParentWalk base ids parents i walk)
    (hacyclic : Acyclic base ids parents) {last : ℕ} (hlast : walk.getLast? = some last) :
    parentRow base ids parents last = none := by
  rw [Option.eq_none_iff_forall_ne_some]
  intro p hparent
  have hagain := h.stopped last hlast p hparent
  have habove := h.pairwise_above
  rw [← List.dropLast_append_getLast? last hlast] at hagain habove
  rcases List.mem_append.mp hagain with hp | hp
  · exact hacyclic p (((List.pairwise_append.mp habove).2.2 p hp last (by simp)).tail hparent)
  · rw [List.mem_singleton.mp hp] at hparent
    exact hacyclic last (.single hparent)

end ParentWalk

variable (ids parents) in
/-- Every row has a walk: a climb grows until it stops, within the rows that there are. -/
theorem exists_parentWalk {i : ℕ} (hi : i < base.size) :
    ∃ walk, ParentWalk base ids parents i walk := by
  have hgrow : ∀ n walk, Climb base ids parents i walk → base.size ≤ walk.length + n →
      ∃ longer, ParentWalk base ids parents i longer := by
    intro n
    induction n with
    | zero =>
      intro walk h hsize
      refine ⟨walk, h, fun last _ p hp => ?_⟩
      have hsub : walk ⊆ List.range base.size :=
        fun a ha => List.mem_range.mpr (h.inside hi a ha)
      have hperm := (h.simple.subperm hsub).perm_of_length_le (by simpa using hsize)
      exact hperm.symm.subset (List.mem_range.mpr (lt_size_of_parentRow hp))
    | succ n ih =>
      intro walk h hsize
      by_cases hstop : ∀ last ∈ walk.getLast?, ∀ p ∈ parentRow base ids parents last, p ∈ walk
      · exact ⟨walk, h, hstop⟩
      · push Not at hstop
        obtain ⟨last, hlast, p, hp, hnew⟩ := hstop
        refine ih (walk ++ [p]) (h.snoc hlast hp hnew) ?_
        rw [List.length_append, List.length_singleton]
        omega
  exact hgrow base.size [i] ⟨rfl, List.isChain_singleton i, List.nodup_singleton i⟩ (by simp)

section Identities

variable {test : Row → Result Bool}
  (hnotNull : ∀ i < base.size, ∀ v ∈ base.cells ids i, v.isNull = false)
  (hdistinct : ∀ i < base.size, ∀ j < base.size, sameIdentity base ids i j = true → i = j)
include hnotNull hdistinct

/-- A row joins exactly those whose parent row it is. -/
theorem joins_iff_parentRow {i j : ℕ} (hi : i < base.size) :
    Joins base ids parents i j ↔ parentRow base ids parents j = some i := by
  constructor
  · rintro ⟨-, hsame⟩
    have hsome : (parentRow base ids parents j).isSome := by
      rw [parentRow, List.find?_isSome]
      exact ⟨i, List.mem_range.mpr hi, hsame⟩
    obtain ⟨p, hp⟩ := Option.isSome_iff_exists.mp hsome
    rw [hp, hdistinct p (lt_size_of_parentRow hp) i hi
      (Value.sameKeys_trans (Value.sameKeys_symm (sameKeys_parentRow hp)) hsame)]
  · intro hp
    exact ⟨hnotNull i hi, sameKeys_parentRow hp⟩

/-- A join path, read backwards, is a climb to an anchor. -/
theorem joinPath_iff_climb (hbase : base.WellFormed) (hids : ∀ name ∈ ids, name ∈ base.names)
    {path : List ℕ} {i : ℕ} (hlast : path.getLast? = some i) :
    JoinPath base test ids parents ids path ↔ i < base.size ∧
      Climb base ids parents i path.reverse ∧ ∀ a ∈ path.head?, isAnchor base test a = true := by
  have hself : ∀ a < base.size, sameIdentity base ids a a = true :=
    fun a ha => hbase.sameKeys_cells ha hids
  have hflip : path.reverse.IsChain (fun a b => parentRow base ids parents a = some b) ↔
      path.IsChain fun a b => parentRow base ids parents b = some a := List.isChain_reverse
  constructor
  · intro h
    refine ⟨h.inside i (List.mem_of_getLast? hlast), ⟨by simpa using hlast, ?_, ?_⟩,
      fun a ha => isAnchor_iff.mpr (h.anchored a ha)⟩
    · refine hflip.mpr (h.joined.imp_of_mem_imp fun a b ha _ hjoin => ?_)
      exact (joins_iff_parentRow hnotNull hdistinct (h.inside a ha)).mp hjoin
    · rw [List.nodup_reverse]
      refine h.simple.imp_of_mem fun {a b} ha _ hne => ?_
      rintro rfl
      rw [hself a (h.inside a ha)] at hne
      cases hne
  · rintro ⟨hi, hclimb, hanchor⟩
    have hinside : ∀ a ∈ path, a < base.size :=
      fun a ha => hclimb.inside hi a (List.mem_reverse.mpr ha)
    refine ⟨?_, hinside, fun a ha => isAnchor_iff.mp (hanchor a ha), ?_, ?_⟩
    · rintro rfl
      cases hlast
    · refine (hflip.mp hclimb.upward).imp_of_mem_imp fun a b ha _ hparent => ?_
      exact (joins_iff_parentRow hnotNull hdistinct (hinside a ha)).mpr hparent
    · refine (List.nodup_reverse.mp hclimb.simple).imp_of_mem fun {a b} ha hb hne => ?_
      rw [Bool.eq_false_iff]
      exact fun hsame => hne (hdistinct a (hinside a ha) b (hinside b hb) hsame)

end Identities

end OrderedRelations.Hierarchy
