import OrderedRelations.Proofs.Hierarchy.Termination
import OrderedRelations.Proofs.Query.IndependentWindows
import OrderedRelations.Proofs.Relation.Operations

/-!
# What every relation keeps

Relations are built from rows and records, and from other relations, by operations of which most do
not look at the values again. Each of them keeps the rows fitting the schema, provided that the
relations it starts from do, so every relation that can be built has fitting rows. For a hierarchy
this is an invariant of its loop: the rows of a frontier are anchor rows or come from relations that
the member handed back under the schema of the anchor.
-/

namespace OrderedRelations

namespace Hierarchy

/-- An anchor and a member that give well-formed relations over a base, the member as long as it is
given one. -/
structure Keeps (spec : HierarchySpec) (base : Relation) : Prop where
  anchor : ∀ out, spec.anchor base = .ok (.relation out) → out.WellFormed
  member : ∀ frontier out, frontier.WellFormed → spec.member frontier base = .ok (.relation out) →
    out.WellFormed

variable {spec : HierarchySpec} {base seed : Relation} {places : List ℕ}

theorem anchor_of_opening (h : opening spec base = .ok (seed, places)) :
    spec.anchor base = .ok (.relation seed) := by
  simp only [opening, Result.bind_eq_ok, Result.pure_eq_ok, Except.ok.injEq, Prod.mk.injEq] at h
  obtain ⟨out, hout, seed', hcheck, places', -, rfl, rfl⟩ := h
  cases out with
  | other kindName => cases hcheck
  | relation given =>
    simp only [checkAnchor] at hcheck
    split at hcheck
    · cases hcheck
    · obtain ⟨_, -, hcheck⟩ := Result.bind_eq_ok.mp hcheck
      obtain ⟨_, -, hcheck⟩ := Result.bind_eq_ok.mp hcheck
      cases hcheck
      exact hout

/-- The rows of every frontier fit the schema of the anchor. -/
theorem Reached.fits (hkeeps : Keeps spec base) (hopening : opening spec base = .ok (seed, places))
    {d : ℕ} {frontier : List Lineage}
    (h : Reached (nextLevel spec base seed.schema places) (roots places seed.rows) d frontier) :
    ∀ l ∈ frontier, seed.schema.Fits l.row := by
  induction h with
  | start =>
    intro l hl
    exact hkeeps.anchor seed (anchor_of_opening hopening) l.row (descent_root hl).2
  | round _ _ hnext ih =>
    intro l hl
    obtain ⟨parent, hparent, children, hgives, hl⟩ := exists_parent hnext hl
    have hfrontier : Relation.WellFormed ⟨seed.schema, [parent.row]⟩ := by
      intro row hrow
      rw [List.mem_singleton.mp hrow]
      exact ih parent hparent
    exact hkeeps.member _ _ hfrontier hgives l.row (mem_offspring.mp hl).1

/-- A join hands on rows of the base. -/
theorem wellFormed_of_joined {frontier out : Relation} (hbase : base.WellFormed)
    {parents children : List String} {member : Member} (hjoins : joined parents children = .ok member)
    (h : member frontier base = .ok (.relation out)) : out.WellFormed := by
  unfold joined at hjoins
  split at hjoins
  · cases hjoins
  · cases hjoins
    have hschema : out.schema = base.schema := by
      obtain ⟨rows, -, h⟩ := Result.bind_eq_ok.mp h
      cases h
      rfl
    intro row hrow
    exact hschema ▸ hbase row (mem_base_of_joined h row hrow)

theorem wellFormed_of_withOptional {r longer : Relation} {name : Option String} {type : ColumnType}
    {values : List Value} (hr : r.WellFormed) (h : withOptional r name type values = .ok longer) :
    longer.WellFormed := by
  cases name with
  | none =>
    cases h
    exact hr
  | some name => exact hr.withColumn h

/-- The rows of the levels that a hierarchy lists fit the schema of the anchor. -/
theorem wellFormed_of_levels (hkeeps : Keeps spec base)
    (hopening : opening spec base = .ok (seed, places)) {cap fuel : ℕ}
    {found : List (List Lineage)} (hfound : levels (nextLevel spec base seed.schema places) cap fuel
      (roots places seed.rows) = .ok found) :
    Relation.WellFormed ⟨seed.schema, found.flatten.map Lineage.row⟩ := by
  intro row hrow
  obtain ⟨l, hl, rfl⟩ := List.mem_map.mp hrow
  obtain ⟨level, hlevel, hl⟩ := List.mem_flatten.mp hl
  obtain ⟨d, hd⟩ := List.getElem?_of_mem hlevel
  exact ((reached_of_levels hfound).1 d level hd).2.fits hkeeps hopening l hl

theorem wellFormed_of_resolve (hkeeps : Keeps spec base) {fuel defaultDepth : ℕ} {res : Resolution}
    (h : resolve fuel base spec defaultDepth = .ok res) : res.relation.WellFormed := by
  rw [resolve_eq] at h
  obtain ⟨⟨seed, places⟩, hopening, h⟩ := Result.bind_eq_ok.mp h
  obtain ⟨found, hfound, h⟩ := Result.bind_eq_ok.mp h
  obtain ⟨deeper, hdeeper, h⟩ := Result.bind_eq_ok.mp h
  obtain ⟨longer, hlonger, h⟩ := Result.bind_eq_ok.mp h
  cases h
  have hrows := wellFormed_of_levels hkeeps hopening hfound
  exact wellFormed_of_withOptional (wellFormed_of_withOptional hrows hdeeper) hlonger

end Hierarchy

namespace Query

/-- The relations that the operations of the library build, in any combination, from given ones. An
anchor may give any relation that can be built, and a member any one that can be built from the
frontier as well. -/
inductive Built : (Relation → Prop) → Relation → Prop
  | start {given r} (known : given r) : Built given r
  | make {given schema entries r} (source : Row → Relation)
      (sources : ∀ row, .row row ∈ entries → Built given (source row))
      (rows : ∀ row, .row row ∈ entries → ∃ i, (source row).rowAt i = .ok row)
      (made : Relation.make schema entries = .ok r) : Built given r
  | ofRows {given schema rows r} (made : Relation.ofRows schema rows = .ok r) : Built given r
  | empty {given} (schema : Schema) : Built given (Relation.empty schema)
  | column {given r s name type values} (relation : Built given r)
      (made : r.withColumn name type values = .ok s) : Built given s
  | labelledColumn {given r s name label values} (relation : Built given r)
      (made : r.withLabelledColumn name label values = .ok s) : Built given s
  | concat {given r s t} (first : Built given r) (second : Built given s)
      (made : r.concat s = .ok t) : Built given t
  | filter {given r s test} (relation : Built given r) (made : r.filter test = .ok s) : Built given s
  | select {given r s names} (relation : Built given r) (made : r.select names = .ok s) :
      Built given s
  | join {given frontier base parents children member out} (grown : Built given frontier)
      (relation : Built given base) (joins : Hierarchy.joined parents children = .ok member)
      (made : member frontier base = .ok (.relation out)) : Built given out
  | resolve {given fuel base spec defaultDepth res} (relation : Built given base)
      (anchor : ∀ out, spec.anchor base = .ok (.relation out) → Built given out)
      (member : ∀ frontier out, spec.member frontier base = .ok (.relation out) →
        Built (fun r => r = frontier ∨ given r) out)
      (made : Hierarchy.resolve fuel base spec defaultDepth = .ok res) : Built given res.relation
  | streaks {given r s partitionBy orderBy criterion settings output} (relation : Built given r)
      (made : groupStreaks r partitionBy orderBy criterion settings output = .ok s) : Built given s
  | query {given fuel base hierarchy windows settings s} (relation : Built given base)
      (anchor : ∀ spec, hierarchy = some spec →
        ∀ out, spec.anchor base = .ok (.relation out) → Built given out)
      (member : ∀ spec, hierarchy = some spec → ∀ frontier out,
        spec.member frontier base = .ok (.relation out) →
          Built (fun r => r = frontier ∨ given r) out)
      (made : evaluate fuel base hierarchy windows settings = .ok s) : Built given s

variable {given : Relation → Prop} {r : Relation}

theorem wellFormed_of_groupStreaks (hr : r.WellFormed) {partitionBy orderBy : Value}
    {criterion : StreakCriterion} {settings : Settings} {output : Option String} {s : Relation}
    (h : groupStreaks r partitionBy orderBy criterion settings output = .ok s) : s.WellFormed := by
  unfold groupStreaks at h
  dsimp only at h
  split at h
  · cases h
  · obtain ⟨ids, -, h⟩ := Result.bind_eq_ok.mp h
    exact hr.withColumn h

theorem wellFormed_of_evaluate (hr : r.WellFormed) {fuel : ℕ} {hierarchy : Option HierarchySpec}
    (hkeeps : ∀ spec, hierarchy = some spec → Hierarchy.Keeps spec r) {windows : List WindowSpec}
    {settings : Settings} {s : Relation}
    (h : evaluate fuel r hierarchy windows settings = .ok s) : s.WellFormed := by
  obtain ⟨resolved, hresolved, h⟩ := Result.bind_eq_ok.mp h
  cases hierarchy with
  | none =>
    cases hresolved
    exact (Window.widens_of_windows hr h).1
  | some spec =>
    obtain ⟨res, hres, rfl⟩ := Result.map_eq_ok.mp hresolved
    exact (Window.widens_of_windows (Hierarchy.wellFormed_of_resolve (hkeeps spec rfl) hres) h).1

theorem Built.ofRecords {schema : Schema} {records : List Value}
    (h : Relation.ofRecords schema records = .ok r) : Built given r := by
  have hrow : ∀ row, .row row ∉ records.map Relation.Entry.record := by simp
  rw [← Relation.make_records] at h
  exact .make (fun row => Relation.empty row.schema) (fun row hmem => absurd hmem (hrow row))
    (fun row hmem => absurd hmem (hrow row)) h

theorem Built.rebuild {schema : Schema} {s : Relation} (hr : Built given r)
    (h : r.rebuild schema = .ok s) : Built given s := by
  rw [← Relation.make_rows] at h
  refine .make (fun _ => r) (fun _ _ => hr) (fun row hrow => ?_) h
  obtain ⟨values, hvalues, heq⟩ := List.mem_map.mp hrow
  obtain ⟨i, hi, rfl⟩ := List.getElem_of_mem hvalues
  cases heq
  have hnat : ¬ (i : ℤ) < 0 := by omega
  exact ⟨i, by simp [Relation.rowAt, hnat, hi]⟩

/-- What is built from well-formed relations is well-formed, by induction on how it is built. -/
theorem Built.wellFormed (h : Built given r) (hgiven : ∀ s, given s → s.WellFormed) :
    r.WellFormed := by
  induction h with
  | start known => exact hgiven _ known
  | make source _ rows made ih =>
    refine Relation.wellFormed_of_make (fun row hrow => ?_) made
    obtain ⟨i, hi⟩ := rows row hrow
    obtain ⟨heq, hfits⟩ := (ih row hrow hgiven).fits_rowAt hi
    exact heq ▸ hfits
  | ofRows made => exact Relation.wellFormed_of_ofRows made
  | empty schema => exact Relation.wellFormed_empty schema
  | column _ made ih => exact (ih hgiven).withColumn made
  | labelledColumn _ made ih => exact (ih hgiven).withLabelledColumn made
  | concat _ _ made ih ih' => exact (ih hgiven).concat (ih' hgiven) made
  | filter _ made ih => exact (ih hgiven).filter made
  | select _ made ih => exact (ih hgiven).select made
  | join _ _ joins made _ ih => exact Hierarchy.wellFormed_of_joined (ih hgiven) joins made
  | resolve _ _ _ made ih ihAnchor ihMember =>
    refine Hierarchy.wellFormed_of_resolve ⟨fun out hout => ihAnchor out hout hgiven, ?_⟩ made
    intro frontier out hfrontier hout
    exact ihMember frontier out hout fun s hs => hs.elim (fun heq => heq ▸ hfrontier) (hgiven s)
  | streaks _ made ih => exact wellFormed_of_groupStreaks (ih hgiven) made
  | query _ _ _ made ih ihAnchor ihMember =>
    refine wellFormed_of_evaluate (ih hgiven) (fun spec hspec => ⟨fun out hout => ?_, ?_⟩) made
    · exact ihAnchor spec hspec out hout hgiven
    · intro frontier out hfrontier hout
      exact ihMember spec hspec frontier out hout
        fun s hs => hs.elim (fun heq => heq ▸ hfrontier) (hgiven s)

end Query
end OrderedRelations
