import OrderedRelations.Proofs.Hierarchy.JoinResolution
import OrderedRelations.Proofs.Relation.Widening

/-!
# Chains of ancestors

The loop that grows a hierarchy passes from frontier to frontier. At depth `d` the chain of every
entry has `d + 1` different identity keys, the last of them its own, and goes on from the chain of
an entry one level up whose member call gave the row. A child is left out exactly where its key is
on the chain of its parent.
-/

namespace OrderedRelations.Hierarchy

/-- What a resolution grows from: the relation of the anchor and the places of the identity
columns in it. -/
def opening (spec : HierarchySpec) (base : Relation) : Result (Relation × List ℕ) := do
  let out ← spec.anchor base
  let seed ← checkAnchor spec out
  let places ← spec.cycleKey.mapM seed.schema.indexOf
  pure (seed, places)

/-- The entries of the anchor's rows. -/
def roots (places : List ℕ) (rows : List (List Value)) : List Lineage :=
  rows.map fun row => ⟨row, [keyOf places row]⟩

def withColumns (spec : HierarchySpec) (schema : Schema) (found : List (List Lineage)) :
    Result Resolution := do
  let r ← withOptional ⟨schema, found.flatten.map Lineage.row⟩ spec.depthColumn .integer
    (depths found)
  let r ← withOptional r spec.pathColumn .text (paths found)
  pure ⟨r, found.map List.length⟩

/-- A resolution opens, grows its levels and adds the columns asked for. -/
theorem resolve_eq (fuel : ℕ) (base : Relation) (spec : HierarchySpec) (defaultDepth : ℕ) :
    resolve fuel base spec defaultDepth = (do
      let (seed, places) ← opening spec base
      let found ← levels (nextLevel spec base seed.schema places)
        (if spec.maxDepth = 0 then defaultDepth else spec.maxDepth) fuel (roots places seed.rows)
      withColumns spec seed.schema found) := by
  unfold resolve opening
  cases spec.anchor base with
  | error e => rfl
  | ok out =>
    simp only [Result.ok_bind]
    cases checkAnchor spec out with
    | error e => rfl
    | ok seed =>
      simp only [Result.ok_bind]
      cases spec.cycleKey.mapM seed.schema.indexOf with
      | error e => rfl
      | ok places => rfl

/-- The states of the loop: how often it has gone round, and the frontier it has then. It goes
round again from a frontier that is not empty. -/
inductive Reached (next : List Lineage → Result (List Lineage)) (start : List Lineage) :
    ℕ → List Lineage → Prop
  | start : Reached next start 0 start
  | round {d : ℕ} {frontier level : List Lineage} (before : Reached next start d frontier)
      (nonempty : frontier ≠ []) (expanded : next frontier = .ok level) :
      Reached next start (d + 1) level

/-- The member gives children of a row, in a relation of the right schema. -/
def Gives (spec : HierarchySpec) (base : Relation) (schema : Schema) (row : List Value)
    (children : List (List Value)) : Prop :=
  spec.member ⟨schema, [row]⟩ base = .ok (.relation ⟨schema, children⟩)

/-- A row whose identity key differs from those of a chain. -/
def OffChain (places : List ℕ) (chain : List (List Value)) (row : List Value) : Prop :=
  ∀ ancestor ∈ chain, Value.sameKeys ancestor (keyOf places row) = false

instance (places : List ℕ) (chain : List (List Value)) (row : List Value) :
    Decidable (OffChain places chain row) :=
  inferInstanceAs (Decidable (∀ ancestor ∈ chain, _))

/-- The entries of the children of one entry that are off its chain. -/
def offspring (places : List ℕ) (parent : Lineage) (children : List (List Value)) :
    List Lineage :=
  (children.filter fun row => decide (OffChain places parent.chain row)).map fun row =>
    ⟨row, parent.chain ++ [keyOf places row]⟩

theorem adopt_eq_offspring (places : List ℕ) (parent : Lineage) (children : List (List Value)) :
    adopt places parent children = offspring places parent children := by
  have hfilter : (fun row => !onChain parent.chain (keyOf places row)) =
      fun row => decide (OffChain places parent.chain row) := by
    funext row
    rw [Bool.eq_iff_iff, decide_eq_true_eq]
    simp [onChain, OffChain]
  rw [adopt, offspring, hfilter]

section Growing

variable {spec : HierarchySpec} {base : Relation} {schema : Schema} {places : List ℕ}

theorem checkMember_eq_ok {out : Produced} {children : List (List Value)} :
    checkMember schema out = .ok children ↔ out = .relation ⟨schema, children⟩ := by
  cases out with
  | other kindName => simp [checkMember]
  | relation out =>
    obtain ⟨schema', rows⟩ := out
    by_cases h : schema' = schema
    · simp [checkMember, h]
    · simp [checkMember, h]

theorem expand_eq_ok {parent : Lineage} {entries : List Lineage} :
    expand spec base schema places parent = .ok entries ↔ ∃ children,
      Gives spec base schema parent.row children ∧
        entries = offspring places parent children := by
  simp only [expand, Result.bind_eq_ok, checkMember_eq_ok, Result.pure_eq_ok, Except.ok.injEq,
    adopt_eq_offspring, Gives]
  constructor
  · rintro ⟨out, hout, children, rfl, rfl⟩
    exact ⟨children, hout, rfl⟩
  · rintro ⟨children, hout, rfl⟩
    exact ⟨_, hout, children, rfl, rfl⟩

private theorem forall₂_exists {α β γ : Type} {P : α → β → Prop} {f : α → β → γ} {xs : List α}
    {zs : List γ} : List.Forall₂ (fun x z => ∃ y, P x y ∧ z = f x y) xs zs ↔
      ∃ ys, List.Forall₂ P xs ys ∧ zs = List.zipWith f xs ys := by
  constructor
  · intro h
    induction h with
    | nil => exact ⟨[], .nil, rfl⟩
    | cons h _ ih =>
      obtain ⟨y, hy, rfl⟩ := h
      obtain ⟨ys, hys, rfl⟩ := ih
      exact ⟨y :: ys, .cons hy hys, rfl⟩
  · rintro ⟨ys, hys, rfl⟩
    induction hys with
    | nil => exact .nil
    | cons h _ ih => exact .cons ⟨_, h, rfl⟩ ih

/-- A level lists, frontier entry by frontier entry, the children off the chain. -/
theorem nextLevel_eq_ok {frontier level : List Lineage} :
    nextLevel spec base schema places frontier = .ok level ↔ ∃ children,
      List.Forall₂ (fun parent rows => Gives spec base schema parent.row rows) frontier children ∧
        level = (List.zipWith (offspring places) frontier children).flatten := by
  simp only [nextLevel, Result.map_eq_ok, Result.mapM_eq_ok, expand_eq_ok, forall₂_exists]
  constructor
  · rintro ⟨entries, ⟨children, hgives, rfl⟩, rfl⟩
    exact ⟨children, hgives, rfl⟩
  · rintro ⟨children, hgives, rfl⟩
    exact ⟨_, ⟨children, hgives, rfl⟩, rfl⟩

theorem mem_offspring {parent l : Lineage} {children : List (List Value)} :
    l ∈ offspring places parent children ↔ l.row ∈ children ∧
      OffChain places parent.chain l.row ∧ l.chain = parent.chain ++ [keyOf places l.row] := by
  obtain ⟨row, chain⟩ := l
  simp only [offspring, List.mem_map, List.mem_filter, decide_eq_true_eq, Lineage.mk.injEq]
  constructor
  · rintro ⟨row, ⟨hmem, hoff⟩, rfl, rfl⟩
    exact ⟨hmem, hoff, rfl⟩
  · rintro ⟨hmem, hoff, rfl⟩
    exact ⟨row, ⟨hmem, hoff⟩, rfl, rfl⟩

/-- Every entry of a level stems from an entry of the frontier before. -/
theorem exists_parent {frontier level : List Lineage}
    (hnext : nextLevel spec base schema places frontier = .ok level) {l : Lineage} (hl : l ∈ level) :
    ∃ parent ∈ frontier, ∃ children, Gives spec base schema parent.row children ∧
      l ∈ offspring places parent children := by
  obtain ⟨children, hgives, rfl⟩ := nextLevel_eq_ok.mp hnext
  obtain ⟨entries, hentries, hl⟩ := List.mem_flatten.mp hl
  obtain ⟨i, hi, rfl⟩ := List.getElem_of_mem hentries
  rw [List.length_zipWith] at hi
  rw [List.getElem_zipWith] at hl
  exact ⟨_, List.getElem_mem _, _, hgives.get (by omega) (by omega), hl⟩

/-- What a chain at depth `d` is like. -/
structure Descent (places : List ℕ) (d : ℕ) (l : Lineage) : Prop where
  length : l.chain.length = d + 1
  distinct : l.chain.Pairwise fun a b => Value.sameKeys a b = false
  own : l.chain.getLast? = some (keyOf places l.row)

theorem descent_root {rows : List (List Value)} {l : Lineage} (h : l ∈ roots places rows) :
    Descent places 0 l ∧ l.row ∈ rows := by
  obtain ⟨row, hrow, rfl⟩ := List.mem_map.mp h
  exact ⟨⟨rfl, List.pairwise_singleton _ _, rfl⟩, hrow⟩

/-- A child off the chain of its parent has a chain one key longer. -/
theorem Descent.offspring {d : ℕ} {parent l : Lineage} (h : Descent places d parent)
    {children : List (List Value)} (hl : l ∈ offspring places parent children) :
    Descent places (d + 1) l := by
  obtain ⟨-, hoff, hchain⟩ := mem_offspring.mp hl
  refine ⟨?_, ?_, ?_⟩
  · rw [hchain, List.length_append, h.length, List.length_singleton]
  · rw [hchain, List.pairwise_append]
    refine ⟨h.distinct, List.pairwise_singleton _ _, fun a ha b hb => ?_⟩
    rw [List.mem_singleton.mp hb]
    exact hoff a ha
  · rw [hchain, List.getLast?_concat]

/-- Every chain at depth `d` of the loop is as long as it should be, and repeats no key. -/
theorem Reached.descent {rows : List (List Value)} {d : ℕ} {frontier : List Lineage}
    (h : Reached (nextLevel spec base schema places) (roots places rows) d frontier) :
    ∀ l ∈ frontier, Descent places d l := by
  induction h with
  | start => exact fun l hl => (descent_root hl).1
  | round _ _ hnext ih =>
    intro l hl
    obtain ⟨parent, hparent, children, -, hl⟩ := exists_parent hnext hl
    exact (ih parent hparent).offspring hl

end Growing

/-- Growing follows the loop: it fails where a round fails, and otherwise lists the frontiers that
the loop leaves behind, up to an empty one or to the end of the fuel. -/
theorem grow_spec {next : List Lineage → Result (List Lineage)} {start : List Lineage} {d : ℕ}
    {frontier : List Lineage} (h : Reached next start d frontier) (fuel : ℕ) :
    (∃ k level e, k < d + fuel ∧ Reached next start k level ∧ next level = .error e ∧
      grow next fuel frontier = .error e) ∨
    ∃ found pending, grow next fuel frontier = .ok (found, pending) ∧
      (∀ (i : ℕ) level, found[i]? = some level → Reached next start (d + i) level ∧ level ≠ []) ∧
      (pending = [] ∧ found.length ≤ fuel ∧ Reached next start (d + found.length) [] ∨
        pending ≠ [] ∧ Reached next start (d + fuel) pending) := by
  induction fuel generalizing d frontier with
  | zero =>
    cases frontier with
    | nil => exact .inr ⟨[], [], rfl, by simp, .inl ⟨rfl, Nat.le_refl 0, h⟩⟩
    | cons l ls =>
      refine .inr ⟨[l :: ls], l :: ls, rfl, ?_, .inr ⟨by simp, h⟩⟩
      intro i level hi
      obtain ⟨hlt, rfl⟩ := List.getElem?_eq_some_iff.mp hi
      obtain rfl : i = 0 := by simpa using hlt
      exact ⟨h, by simp⟩
  | succ fuel ih =>
    cases frontier with
    | nil => exact .inr ⟨[], [], rfl, by simp, .inl ⟨rfl, Nat.zero_le _, h⟩⟩
    | cons l ls =>
      cases hnext : next (l :: ls) with
      | error e => exact .inl ⟨d, l :: ls, e, by omega, h, hnext, by simp [grow, hnext]⟩
      | ok level =>
        rcases ih (h.round (by simp) hnext) with ⟨k, level', e, hk, hreached, herror, hgrow⟩ |
          ⟨found, pending, hgrow, hfound, hend⟩
        · exact .inl ⟨k, level', e, by omega, hreached, herror, by simp [grow, hnext, hgrow]⟩
        · refine .inr ⟨(l :: ls) :: found, pending, by simp [grow, hnext, hgrow], ?_, ?_⟩
          · intro i level' hi
            cases i with
            | zero =>
              cases hi
              exact ⟨h, by simp⟩
            | succ i =>
              have hlevel := hfound i level' hi
              rwa [Nat.add_assoc, Nat.add_comm 1 i] at hlevel
          · rw [List.length_cons, ← Nat.add_assoc, Nat.add_right_comm d found.length 1,
              ← Nat.add_assoc, Nat.add_right_comm d fuel 1]
            exact hend.imp (fun h => ⟨h.1, Nat.succ_le_succ h.2.1, h.2.2⟩) id

/-- The levels of a hierarchy are those of a growth with nothing left pending. -/
theorem levels_eq_ok {next : List Lineage → Result (List Lineage)} {cap fuel : ℕ}
    {start : List Lineage} {found : List (List Lineage)} :
    levels next cap fuel start = .ok found ↔
      grow next (if cap = 0 then fuel else cap) start = .ok (found, []) := by
  unfold levels
  cases grow next (if cap = 0 then fuel else cap) start with
  | error e => simp
  | ok grown =>
    obtain ⟨levels, pending⟩ := grown
    cases pending with
    | nil => simp
    | cons l ls => cases cap <;> simp

/-- The levels that a hierarchy lists are the frontiers of its loop before the first empty one, where
the loop ends. -/
theorem reached_of_levels {next : List Lineage → Result (List Lineage)} {cap fuel : ℕ}
    {start : List Lineage} {found : List (List Lineage)} (h : levels next cap fuel start = .ok found) :
    (∀ (d : ℕ) level, found[d]? = some level → level ≠ [] ∧ Reached next start d level) ∧
      Reached next start found.length [] := by
  rw [levels_eq_ok] at h
  rcases grow_spec .start (if cap = 0 then fuel else cap) with
    ⟨k, level, e, -, -, -, herror⟩ | ⟨found', pending, hgrow, hreached, hend⟩
  · cases herror.symm.trans h
  · cases hgrow.symm.trans h
    simp only [Nat.zero_add] at hreached hend
    exact ⟨fun d level hlevel => (hreached d level hlevel).symm,
      hend.elim (fun h => h.2.2) fun h => absurd rfl h.1⟩

theorem withOptional_extends {r longer : Relation} {name : Option String} {type : ColumnType}
    {values : List Value} (h : withOptional r name type values = .ok longer) :
    List.Forall₂ (fun row row' => row <+: row') r.rows longer.rows := by
  cases name with
  | none =>
    cases h
    exact List.forall₂_same.mpr fun row _ => List.prefix_refl row
  | some name =>
    obtain ⟨_, cells, -, -, happended⟩ := Relation.withColumn_iff.mp h
    exact happended.widens.rows

/-- The columns asked for stand behind the rows of the entries. -/
theorem withColumns_extends {spec : HierarchySpec} {schema : Schema}
    {found : List (List Lineage)} {r : Resolution} (h : withColumns spec schema found = .ok r) :
    r.levelSizes = found.map List.length ∧
      List.Forall₂ (fun l row => l.row <+: row) found.flatten r.relation.rows := by
  simp only [withColumns, Result.bind_eq_ok] at h
  obtain ⟨deeper, hdeeper, longer, hlonger, h⟩ := h
  cases h
  have hfirst := List.forall₂_map_left_iff.mp (withOptional_extends hdeeper)
  have hsecond := withOptional_extends hlonger
  refine ⟨rfl, List.forall₂_iff_get.mpr ⟨hfirst.length_eq.trans hsecond.length_eq, ?_⟩⟩
  intro i hi hi'
  have hmiddle : i < deeper.rows.length := hfirst.length_eq ▸ hi
  exact (hfirst.get hi hmiddle).trans (hsecond.get hmiddle hi')

section Resolving

variable {spec : HierarchySpec} {base seed : Relation} {places : List ℕ}

end Resolving

/-- The staff below those without a boss, by their bosses' numbers. -/
def staffTree : HierarchySpec :=
  ⟨anchorWhere atTheTop, joinedMember ["id"] ["boss"], ["id"], 0, some "depth", none⟩

end OrderedRelations.Hierarchy
