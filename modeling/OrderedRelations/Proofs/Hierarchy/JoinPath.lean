import Mathlib.Data.List.Chain
import Mathlib.Data.List.Range
import Mathlib.Data.List.Perm.Subperm
import OrderedRelations.Proofs.Relation.Cell

/-!
# Simple join paths

A join path walks through the rows of a base relation, by position: it starts at a row that
passes the anchor's test, each row joins the next one, and no identity key comes twice.
`pathsAt` lists the paths level by level in lexicographic order.
-/

namespace OrderedRelations.Hierarchy

variable (base : Relation) (test : Row → Result Bool) (parents children cycleKey : List String)

/-- The parent columns of row `i` hold no null and equal the child columns of row `j`. -/
def Joins (i j : ℕ) : Prop :=
  (∀ v ∈ base.cells parents i, v.isNull = false) ∧
    Value.sameKeys (base.cells children j) (base.cells parents i) = true

instance (i j : ℕ) : Decidable (Joins base parents children i j) :=
  inferInstanceAs (Decidable (_ ∧ _))

/-- Whether two rows have one identity key. -/
def sameIdentity (i j : ℕ) : Bool :=
  Value.sameKeys (base.cells cycleKey i) (base.cells cycleKey j)

/-- A walk from an anchor row along joins that meets no identity key twice. -/
structure JoinPath (path : List ℕ) : Prop where
  nonempty : path ≠ []
  inside : ∀ i ∈ path, i < base.size
  anchored : ∀ i ∈ path.head?, test (base.row (base.valuesAt i)) = .ok true
  joined : path.IsChain (Joins base parents children)
  simple : path.Pairwise fun i j => sameIdentity base cycleKey i j = false

/-- The rows that a path ending in row `i` may go on to. -/
def successors (path : List ℕ) (i : ℕ) : List ℕ :=
  (List.range base.size).filter fun j =>
    decide (Joins base parents children i j) && !path.any fun a => sameIdentity base cycleKey a j

/-- The paths that are one row longer than a given one. -/
def extensions (path : List ℕ) : List (List ℕ) :=
  match path.getLast? with
  | some i => (successors base parents children cycleKey path i).map fun j => path ++ [j]
  | none => []

/-- Whether values pass the anchor's test. -/
def passes (values : List Value) : Bool := test (base.row values) matches .ok true

def isAnchor (i : ℕ) : Bool := passes base test (base.valuesAt i)

/-- The join paths of `d + 1` rows. -/
def pathsAt : ℕ → List (List ℕ)
  | 0 => ((List.range base.size).filter (isAnchor base test)).map fun i => [i]
  | d + 1 => (pathsAt d).flatMap (extensions base parents children cycleKey)

variable {base test parents children cycleKey}

theorem isAnchor_iff {i : ℕ} :
    isAnchor base test i = true ↔ test (base.row (base.valuesAt i)) = .ok true := by
  rw [isAnchor, passes]
  split <;> simp_all

theorem mem_successors {path : List ℕ} {i j : ℕ} :
    j ∈ successors base parents children cycleKey path i ↔ j < base.size ∧
      Joins base parents children i j ∧ ∀ a ∈ path, sameIdentity base cycleKey a j = false := by
  simp [successors]

/-- A path with one more row is a path whose last row joins a row of a new identity. -/
theorem joinPath_snoc {path : List ℕ} {i j : ℕ} (hlast : path.getLast? = some i) :
    JoinPath base test parents children cycleKey (path ++ [j]) ↔
      JoinPath base test parents children cycleKey path ∧
        j ∈ successors base parents children cycleKey path i := by
  have hne : path ≠ [] := by
    rintro rfl
    simp at hlast
  have hhead : (path ++ [j]).head? = path.head? := List.head?_append_of_ne_nil _ hne
  rw [mem_successors]
  constructor
  · rintro ⟨-, hin, hanchor, hchain, hsimple⟩
    obtain ⟨hchain, -, hjoin⟩ := List.isChain_append.mp hchain
    obtain ⟨hsimple, -, hnew⟩ := List.pairwise_append.mp hsimple
    refine ⟨⟨hne, fun a ha => hin a (by simp [ha]), hhead ▸ hanchor, hchain, hsimple⟩, ?_⟩
    exact ⟨hin j (by simp), hjoin i hlast j (by simp), fun a ha => hnew a ha j (by simp)⟩
  · rintro ⟨⟨-, hin, hanchor, hchain, hsimple⟩, hj, hjoin, hnew⟩
    refine ⟨by simp, ?_, hhead ▸ hanchor, ?_, ?_⟩
    · intro a ha
      rcases List.mem_append.mp ha with ha | ha
      · exact hin a ha
      · rw [List.mem_singleton.mp ha]
        exact hj
    · refine List.isChain_append.mpr ⟨hchain, List.isChain_singleton j, ?_⟩
      intro a ha b hb
      obtain rfl : i = a := by simpa [hlast] using ha
      obtain rfl : j = b := by simpa using hb
      exact hjoin
    · refine List.pairwise_append.mpr ⟨hsimple, List.pairwise_singleton _ j, ?_⟩
      intro a ha b hb
      rw [List.mem_singleton.mp hb]
      exact hnew a ha

theorem mem_extensions {path longer : List ℕ} :
    longer ∈ extensions base parents children cycleKey path ↔ ∃ i j, path.getLast? = some i ∧
      j ∈ successors base parents children cycleKey path i ∧ longer = path ++ [j] := by
  rw [extensions]
  cases path.getLast? <;> simp [eq_comm]

/-- The paths listed at a depth are the join paths of that many steps. -/
theorem mem_pathsAt {d : ℕ} {path : List ℕ} :
    path ∈ pathsAt base test parents children cycleKey d ↔
      JoinPath base test parents children cycleKey path ∧ path.length = d + 1 := by
  induction d generalizing path with
  | zero =>
    rw [pathsAt, List.mem_map]
    constructor
    · rintro ⟨i, hi, rfl⟩
      obtain ⟨hi, hanchor⟩ := List.mem_filter.mp hi
      refine ⟨⟨by simp, ?_, ?_, List.isChain_singleton i, List.pairwise_singleton _ i⟩, rfl⟩
      · simpa using hi
      · simpa using isAnchor_iff.mp hanchor
    · rintro ⟨⟨-, hin, hanchor, -, -⟩, hlen⟩
      obtain ⟨i, rfl⟩ := List.length_eq_one_iff.mp hlen
      refine ⟨i, List.mem_filter.mpr ⟨?_, ?_⟩, rfl⟩
      · simpa using hin i
      · exact isAnchor_iff.mpr (hanchor i (by simp))
  | succ d ih =>
    rw [pathsAt, List.mem_flatMap]
    constructor
    · rintro ⟨shorter, hshorter, hext⟩
      obtain ⟨i, j, hlast, hj, rfl⟩ := mem_extensions.mp hext
      obtain ⟨hpath, hlen⟩ := ih.mp hshorter
      exact ⟨(joinPath_snoc hlast).mpr ⟨hpath, hj⟩, by simp [hlen]⟩
    · rintro ⟨hpath, hlen⟩
      obtain rfl | ⟨shorter, j, rfl⟩ := List.eq_nil_or_concat path
      · simp at hlen
      · rw [List.concat_eq_append] at hpath hlen ⊢
        have hshort : shorter.length = d + 1 := by simpa using hlen
        obtain ⟨i, hlast⟩ : ∃ i, shorter.getLast? = some i :=
          List.getLast?_isSome.mpr (by rintro rfl; simp at hshort) |> Option.isSome_iff_exists.mp
        obtain ⟨hpath, hj⟩ := (joinPath_snoc hlast).mp hpath
        exact ⟨shorter, ih.mpr ⟨hpath, hshort⟩, mem_extensions.mpr ⟨i, j, hlast, hj, rfl⟩⟩

private theorem snoc_lt_snoc {p q : List ℕ} (h : p < q) (hlen : p.length = q.length) (i j : ℕ) :
    p ++ [i] < q ++ [j] := by
  induction p generalizing q with
  | nil =>
    obtain rfl := List.length_eq_zero_iff.mp hlen.symm
    exact absurd h (List.lt_irrefl _)
  | cons a p ih =>
    cases q with
    | nil => simp at hlen
    | cons b q =>
      rcases List.cons_lt_cons_iff.mp h with hlt | ⟨rfl, htail⟩
      · exact List.cons_lt_cons_iff.mpr (Or.inl hlt)
      · exact List.cons_lt_cons_iff.mpr (Or.inr ⟨rfl, ih htail (by simpa using hlen)⟩)

/-- The paths at a depth stand in strict lexicographic order. -/
theorem pathsAt_pairwise_lt (d : ℕ) :
    (pathsAt base test parents children cycleKey d).Pairwise (· < ·) := by
  have hrange := List.pairwise_lt_range (n := base.size)
  induction d with
  | zero =>
    rw [pathsAt, List.pairwise_map]
    exact (hrange.filter _).imp fun h => List.cons_lt_cons_iff.mpr (Or.inl h)
  | succ d ih =>
    rw [pathsAt, List.pairwise_flatMap]
    constructor
    · intro path _
      rw [extensions]
      cases path.getLast? with
      | none => exact List.Pairwise.nil
      | some i =>
        rw [List.pairwise_map]
        refine (hrange.filter _).imp fun h => List.append_left_lt ?_
        exact List.cons_lt_cons_iff.mpr (Or.inl h)
    · refine List.Pairwise.imp_of_mem ?_ ih
      intro p q hp hq hpq x hx y hy
      obtain ⟨_, j, _, _, rfl⟩ := mem_extensions.mp hx
      obtain ⟨_, k, _, _, rfl⟩ := mem_extensions.mp hy
      exact snoc_lt_snoc hpq (by rw [(mem_pathsAt.mp hp).2, (mem_pathsAt.mp hq).2]) j k

/-- A join path meets no row twice, so it has at most as many rows as the base. -/
theorem JoinPath.length_le (hbase : base.WellFormed) (hkey : ∀ name ∈ cycleKey, name ∈ base.names)
    {path : List ℕ} (h : JoinPath base test parents children cycleKey path) :
    path.length ≤ base.size := by
  have hnodup : path.Nodup := by
    refine List.Pairwise.imp_of_mem ?_ h.simple
    rintro i j hi - hne rfl
    have hself : sameIdentity base cycleKey i i = true :=
      hbase.sameKeys_cells (h.inside i hi) hkey
    rw [hself] at hne
    simp at hne
  have hsub : path ⊆ List.range base.size := fun i hi => List.mem_range.mpr (h.inside i hi)
  simpa using (hnodup.subperm hsub).length_le

end OrderedRelations.Hierarchy
