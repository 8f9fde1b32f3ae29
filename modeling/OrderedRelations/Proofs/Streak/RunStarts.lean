import OrderedRelations.Proofs.Streak.RunIds

/-!
# Where runs start

Rows that all have whole coordinates start a run where their coordinate is not one step, or too far,
from that of the row before them in their partition.
-/

namespace OrderedRelations.Streak

variable {r : Relation} {partitionBy : List String} {orderBy : List OrderKey}
  {parts : List Partition} {column : String} {type : ColumnType}

/-- The coordinate of a row. -/
def pointAt (r : Relation) (column : String) (i : ℕ) : ℤ := (r.cell column i).point

/-- Every row has a value, with a whole coordinate. -/
structure Placed (r : Relation) (column : String) (type : ColumnType) : Prop where
  typeOf : r.schema.typeOf column = .ok type
  whole : type.Whole
  present : ∀ i < r.size, (r.cell column i).isNull = false
  comparable : ∀ i < r.size, (r.cell column i).comparable?.isSome = true

theorem Placed.mem_names (h : Placed r column type) : column ∈ r.names :=
  Schema.mem_names_of_typeOf h.typeOf

theorem Placed.quantityAt (hr : r.WellFormed) (h : Placed r column type) {i : ℕ} (hi : i < r.size) :
    (r.cell column i).quantityAt type = .ok (.whole (pointAt r column i)) :=
  Value.quantityAt_eq h.whole (hr.conforms_cell h.typeOf i) (h.present i hi)
    (h.comparable i hi)

/-- Whether a step does not lead from one coordinate to the next. -/
def stepBreaks (step a b : ℤ) : Bool := decide (b - a ≠ step)

/-- Whether a gap between coordinates exceeds a tolerance, or reaches it when it does not count. -/
def gapBreaks (tolerance : ℤ) (inclusive : Bool) (a b : ℤ) : Bool :=
  if inclusive then decide (tolerance < |b - a|) else decide (tolerance ≤ |b - a|)

/-- Whether a value starts a run behind what stands before it. -/
def afterGap (tolerance : ℤ) (inclusive : Bool) (v previous : Value) : Bool :=
  previous.isNull || gapBreaks tolerance inclusive previous.point v.point

/-- One flag for each row; along every partition they are set where runs start. -/
structure Flagged (r : Relation) (column : String) (parts : List Partition)
    (breaks : ℤ → ℤ → Bool) (flags : List Bool) : Prop where
  length : flags.length = r.size
  starts : ∀ p ∈ parts, p.positions.map (flags[·]?) =
    (runStarts breaks (p.positions.map (pointAt r column))).map some

/-- A test of what each row has and of what stands before it sets the flags. -/
theorem flagged_of_previous {α : Type} {here : ℕ → α} {cell : ℕ → Value} {previous : List Value}
    (start : α → Value → Bool) {breaks : ℤ → ℤ → Bool}
    (hparts : Arrangement.positions r partitionBy orderBy = .ok parts)
    (hlength : previous.length = r.size)
    (hprevious : ∀ p ∈ parts, p.positions.map (previous[·]?) =
      ((.null :: p.positions.map cell).take p.positions.length).map some)
    (hfirst : ∀ a, start a .null = true)
    (hnext : ∀ p ∈ parts, ∀ k (h : k + 1 < p.positions.length),
      start (here p.positions[k + 1]) (cell p.positions[k]) =
        breaks (pointAt r column p.positions[k]) (pointAt r column p.positions[k + 1])) :
    Flagged r column parts breaks
      ((((List.range r.size).map here).zip previous).map fun x => start x.1 x.2) := by
  refine ⟨by simp [hlength], fun p hp => ?_⟩
  have hflag : ∀ i ∈ p.positions,
      ((((List.range r.size).map here).zip previous).map fun x => start x.1 x.2)[i]? =
        (previous[i]?).map (start (here i)) := by
    intro i hi
    have hlt := Arrangement.lt_size_of_positions hparts hp i hi
    simp [hlt, hlength]
  rw [List.map_congr_left hflag, runStarts_map]
  exact runStarts_of_previous (hprevious p hp) (fun i _ => hfirst (here i)) (hnext p hp)

/-- What is left of whole coordinates after so many steps. -/
theorem islands_eq (hr : r.WellFormed) (h : Placed r column type) (step : ℤ) (number : ℕ → ℤ) :
    (((List.range r.size).map (r.cell column)).zip
      ((List.range r.size).map fun i => Value.int (number i))).mapM
        (fun x => island type (.whole step) x.1 x.2) =
      .ok ((List.range r.size).map fun i => .whole (pointAt r column i - number i * step)) := by
  rw [List.zip_map', List.mapM_map]
  refine Result.mapM_eq_map fun i hi => ?_
  simp [island, h.quantityAt hr (List.mem_range.mp hi), Value.quantity?]

section Windows

variable (hr : r.WellFormed) (hne : orderBy ≠ [])
  (hparts : Arrangement.positions r partitionBy orderBy = .ok parts)
include hr hne hparts

/-- Whole numbers in a scratch column are read back by the rows behind them. -/
theorem exists_scratch_previous (stem : String) (key : ℕ → ℤ) : ∃ keyed previous,
    r.withColumn (scratchName r.schema stem) .integer
      ((List.range r.size).map fun i => .int (key i)) = .ok keyed ∧
    Window.evaluate keyed ⟨.lag (scratchName r.schema stem) 1 .null, partitionBy, orderBy, none,
      none⟩ = .ok previous ∧
    previous.length = r.size ∧ ∀ p ∈ parts, p.positions.map (previous[·]?) =
      ((.null :: p.positions.map fun i => .int (key i)).take p.positions.length).map some := by
  obtain ⟨hp, ho, -, -⟩ := Arrangement.passed_of_positions hparts
  have htyped : ∀ v ∈ (List.range r.size).map fun i => Value.int (key i),
      v.conforms .integer = true := by
    intro v hv
    obtain ⟨i, -, rfl⟩ := List.mem_map.mp hv
    rfl
  obtain ⟨keyed, hkeyed, happended⟩ := exists_scratch r stem (by simp) htyped
  have hparts' : Arrangement.positions keyed partitionBy orderBy = .ok parts := by
    rw [Window.positions_wider hr happended.widens hp ho, hparts]
  obtain ⟨previous, hprevious, hlength, hbefore⟩ := Window.exists_previous
    (happended.wellFormed hr htyped) hne hparts' (Schema.mem_names_of_typeOf happended.typeOf)
  refine ⟨keyed, previous, hkeyed, hprevious, hlength.trans happended.widens.size_eq,
    fun p hp => ?_⟩
  rw [hbefore p hp]
  refine congrArg (fun cells => ((Value.null :: cells).take p.positions.length).map some)
    (List.map_congr_left fun i hi => ?_)
  simpa [Arrangement.lt_size_of_positions hparts hp i hi] using
    happended.cell hr (Arrangement.lt_size_of_positions hparts hp i hi)

variable (h : Placed r column type)
include h

/-- Equal steps leave equal islands, so the islands of neighbours differ where a step breaks. -/
theorem exists_consecutiveStarts (step : ℤ) : ∃ flags,
    consecutiveStarts r partitionBy orderBy column type (.whole step) = .ok flags ∧
      Flagged r column parts (stepBreaks step) flags := by
  obtain ⟨numbers, hnumbers, hcount, hnumbered⟩ := Window.exists_numbering hr hne hparts
  obtain ⟨number, rfl, hnumber⟩ := exists_whole hparts hcount
    (fun positions => (List.range positions.length).map fun (k : ℕ) => ((k + 1 : ℕ) : ℤ))
    fun p hp => (hnumbered p hp).trans (by simp [Function.comp_def])
  let key := fun i => pointAt r column i - number i * step
  obtain ⟨keyed, previous, hkeyed, hprevious, hlength, hbefore⟩ :=
    exists_scratch_previous hr hne hparts "island" key
  have hislands := islands_eq hr h step number
  have hwhole : ((List.range r.size).map fun i => Quantity.whole (key i)).all Quantity.isWhole =
      true := by
    simp [Quantity.isWhole]
  have hcells : (((List.range r.size).map fun i => Quantity.whole (key i)).map Value.ofQuantity) =
      (List.range r.size).map fun i => Value.int (key i) := by
    simp [Value.ofQuantity]
  have heq : consecutiveStarts r partitionBy orderBy column type (.whole step) =
      .ok ((((List.range r.size).map fun i => Quantity.whole (key i)).zip previous).map
        fun x => startsIsland x.1 x.2) := by
    unfold consecutiveStarts
    simp only [hnumbers, Relation.column_eq_ok h.mem_names, Result.ok_bind]
    change (List.mapM (fun x : Value × Value => island type (.whole step) x.1 x.2) _ >>= _) = _
    simp only [hislands, Result.ok_bind, hwhole, if_true, hcells, hkeyed, key]
    rw [hprevious]
    rfl
  refine ⟨_, heq, flagged_of_previous startsIsland hparts hlength hbefore (fun _ => rfl)
    fun p hp k hk => ?_⟩
  have hat : ∀ m (hm : m < p.positions.length), number p.positions[m] = m + 1 := by
    intro m hm
    simpa [hm] using congrArg (·[m]?) (hnumber p hp)
  simp [startsIsland, Value.quantity?, stepBreaks, key, hat (k + 1) hk, hat k (Nat.lt_of_succ_lt hk)]
  have hnumber : ((k : ℤ) + 1 + 1) * step = (k + 1) * step + step := by ring
  omega

/-- Gaps are measured between neighbours, in either direction. -/
theorem exists_gapStarts (tolerance : ℤ) (inclusive : Bool) : ∃ flags,
    gapStarts r partitionBy orderBy column type (.whole tolerance) inclusive = .ok flags ∧
      Flagged r column parts (gapBreaks tolerance inclusive) flags := by
  obtain ⟨previous, hprevious, hlength, hbefore⟩ :=
    Window.exists_previous hr hne hparts h.mem_names
  have hold : ∀ v ∈ previous, v = .null ∨ ∃ i < r.size, v = r.cell column i := by
    intro v hv
    obtain ⟨i, hi, rfl⟩ := List.getElem_of_mem hv
    obtain ⟨p, hp, hip⟩ := exists_partition hparts (hlength ▸ hi)
    have hmem : some previous[i] ∈ p.positions.map (previous[·]?) :=
      List.mem_map.mpr ⟨i, hip, by simp⟩
    rw [hbefore p hp] at hmem
    obtain ⟨w, hw, heq⟩ := List.mem_map.mp hmem
    rcases List.mem_cons.mp (List.mem_of_mem_take hw) with rfl | hw
    · exact .inl (Option.some.inj heq).symm
    · obtain ⟨j, hj, rfl⟩ := List.mem_map.mp hw
      exact .inr ⟨j, Arrangement.lt_size_of_positions hparts hp j hj, (Option.some.inj heq).symm⟩
  have hstarts : (((List.range r.size).map (r.cell column)).zip previous).mapM
      (fun x => startsAfterGap type (.whole tolerance) inclusive x.1 x.2) =
      .ok ((((List.range r.size).map (r.cell column)).zip previous).map fun x =>
        afterGap tolerance inclusive x.1 x.2) := by
    refine Result.mapM_eq_map fun x hmem => ?_
    obtain ⟨v, p⟩ := x
    obtain ⟨i, hi, rfl⟩ := List.mem_map.mp (List.of_mem_zip hmem).1
    have hi := List.mem_range.mp hi
    rcases hold p (List.of_mem_zip hmem).2 with rfl | ⟨j, hj, rfl⟩
    · rfl
    · cases inclusive <;>
        simp [startsAfterGap, h.quantityAt hr hi, h.quantityAt hr hj, h.present j hj, afterGap,
          gapBreaks, pointAt, Quantity.abs, Quantity.atMost, le_iff_lt_or_eq]
  have heq : gapStarts r partitionBy orderBy column type (.whole tolerance) inclusive =
      .ok ((((List.range r.size).map (r.cell column)).zip previous).map fun x =>
        afterGap tolerance inclusive x.1 x.2) := by
    unfold gapStarts
    rw [hprevious, Result.ok_bind, Relation.column_eq_ok h.mem_names, Result.ok_bind]
    exact hstarts
  refine ⟨_, heq, flagged_of_previous (afterGap tolerance inclusive) hparts hlength hbefore
    (fun _ => rfl) fun p hp k hk => ?_⟩
  have hin := Arrangement.lt_size_of_positions hparts hp
  simp [afterGap, h.present _ (hin _ (List.getElem_mem (Nat.lt_of_succ_lt hk))), pointAt]

end Windows
end OrderedRelations.Streak
