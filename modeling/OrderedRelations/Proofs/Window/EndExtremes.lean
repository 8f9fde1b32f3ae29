import OrderedRelations.Proofs.Window.Agreement
import OrderedRelations.Proofs.Window.PlainFrames
import OrderedRelations.Proofs.Window.UnorderedExtremes
import OrderedRelations.Proofs.Window.WindowSafety

/-!
# Extremes of the first order column

Sorting puts the extremes of the first order column at the ends of every frame. As long as values of
one rank are the same value, the queue of a sliding extreme answers with the value at an end, though
it finds it in another way.
-/

namespace OrderedRelations

/-- Columns whose values are the same as soon as they are equal in order. -/
def ColumnType.IsPlain (type : ColumnType) : Prop :=
  type = .integer ∨ type = .text ∨ type = .date ∨ type = .boolean

namespace Value

variable {type : ColumnType} {v w : Value}

theorem contends_of_plain (hplain : type.IsPlain) (htyped : v.conforms type = true)
    (hpresent : v.isNull = false) : v.Contends type := by
  refine ⟨htyped, ?_, ?_, hpresent⟩ <;>
    rcases hplain with rfl | rfl | rfl | rfl <;> cases v <;> first | rfl | cases htyped

theorem eq_of_sortRank_eq (hplain : type.IsPlain) (hv : v.Contends type) (hw : w.Contends type)
    (h : v.sortRank = w.sortRank) : v = w := by
  cases alike_of_conforms hv.typed hw.typed hv.present hw.present with
  | bool b c => cases b <;> cases c <;> simp [sortRank, comparable?, rank, numberRank_inj] at h ⊢
  | int m n => simpa [sortRank, comparable?, rank, numberRank_inj] using h
  | text s t =>
    have hchars : s.toList.map Char.toNat = t.toList.map Char.toNat := by
      simpa [sortRank, comparable?, rank] using h
    rw [List.map_inj_right fun a b hab => Char.toNat_inj.mp hab, String.toList_inj] at hchars
    rw [hchars]
  | date c d => simpa [sortRank, comparable?, rank, numberRank_inj, Date.ordinal_inj] using h
  | float x y => rcases hplain with rfl | rfl | rfl | rfl <;> cases hv.typed
  | datetime s t => rcases hplain with rfl | rfl | rfl | rfl <;> cases hv.typed

theorem outranks_not (maximum : Bool) (v w : Value) :
    v.outranks (!maximum) w = w.outranks maximum v := by
  cases maximum <;> rfl

/-- Equal ranks leave nothing to tell two values apart. -/
theorem eq_of_not_outranks {maximum : Bool} (hplain : type.IsPlain) (hv : v.Contends type)
    (hw : w.Contends type) (hvw : v.outranks maximum w = false)
    (hwv : w.outranks maximum v = false) : v = w := by
  refine eq_of_sortRank_eq hplain hv hw ?_
  cases maximum <;>
    simp only [outranks, Bool.false_eq_true, if_true, if_false, hv.sortsBelow_eq hw,
      hw.sortsBelow_eq hv, decide_eq_false_iff_not, not_lt] at hvw hwv
  · exact le_antisymm hwv hvw
  · exact le_antisymm hvw hwv

/-- A key puts one value before another where the first is better in its direction. -/
theorem before_eq_outranks (k : OrderKey) (hv : v.Contends type) (hw : w.Contends type) :
    k.before (v.comparable?.getD .null) (w.comparable?.getD .null) = v.outranks k.descending w := by
  obtain ⟨v', hv', hsv, hnv, -⟩ := hv.exists_sortable
  obtain ⟨w', hw', hsw, hnw, -⟩ := hw.exists_sortable
  rw [hv', hw', Option.getD_some, Option.getD_some, k.before_of_not_null hnv hnw, outranks,
    sortsBelow, sortsBelow, hv', hw']
  simp only [hsv.less?_eq hsw hnv hnw, hsw.less?_eq hsv hnw hnv]
  cases k.descending <;> simp

end Value

namespace RunningExtreme

variable {type : ColumnType} {maximum : Bool} {window : List Entry} {v : Value}

/-- Where no later value is better, the best is the first one. -/
theorem LastBest.eq_head (hplain : type.IsPlain) (hwindow : ∀ e ∈ window, e.value.Contends type)
    (hsorted : window.Pairwise fun e f => f.value.outranks maximum e.value = false)
    (h : LastBest maximum window v) : v = ((window.map Entry.value).head?).getD .null := by
  cases h with
  | nothing hnull =>
    cases window with
    | nil => rfl
    | cons e rest =>
      have hpresent := (hwindow e List.mem_cons_self).present
      rw [hnull e List.mem_cons_self] at hpresent
      cases hpresent
  | @best before after e hsplit hpresent hbefore hafter =>
    subst hsplit
    cases before with
    | nil => rfl
    | cons first before =>
      have hfirst := hwindow first List.mem_cons_self
      have hbest := hwindow e (by simp)
      refine Value.eq_of_not_outranks hplain hbest hfirst ?_
        (hbefore first List.mem_cons_self hfirst.present)
      exact (List.pairwise_cons.mp hsorted).1 e (by simp)

/-- Where no earlier value is better, the last of the best is the last one. -/
theorem LastBest.eq_getLast (hwindow : ∀ e ∈ window, e.value.isNull = false)
    (hsorted : window.Pairwise fun e f => e.value.outranks maximum f.value = false)
    (h : LastBest maximum window v) : v = ((window.map Entry.value).getLast?).getD .null := by
  cases h with
  | nothing hnull =>
    cases window with
    | nil => rfl
    | cons e rest =>
      have hpresent := hwindow e List.mem_cons_self
      rw [hnull e List.mem_cons_self] at hpresent
      cases hpresent
  | @best before after e hsplit hpresent hbefore hafter =>
    subst hsplit
    cases after with
    | nil => simp
    | cons f after =>
      have hout := hafter f List.mem_cons_self (hwindow f (by simp))
      have hsorted := (List.pairwise_cons.mp (List.pairwise_append.mp hsorted).2.1).1
      rw [hsorted f List.mem_cons_self] at hout
      cases hout

end RunningExtreme

namespace FrameAggregate

open RunningExtreme

variable {values : List Value} {type : ColumnType} {f : Span}

/-- The value at the start of a frame is the first of its stretch. -/
theorem atEnd_first (values : List Value) (f : Span) (hf : 0 ≤ f.first) :
    Window.atEnd values false f = ((framed values f).head?).getD .null := by
  rw [Window.atEnd, framed, stop, List.head?_take, List.head?_drop]
  by_cases h : f.first < f.stop
  · have hsome : ¬(max f.first f.stop).toNat - f.first.toNat = 0 := by omega
    rw [if_pos h, if_neg hsome]
    rfl
  · rw [if_neg h, if_pos (by omega)]
    rfl

/-- The value at the stop of a frame is the last of its stretch. -/
theorem atEnd_last (hf : InRows values f) :
    Window.atEnd values true f = ((framed values f).getLast?).getD .null := by
  obtain ⟨hfirst, hstop⟩ := hf
  rw [stop] at hstop
  rw [Window.atEnd, framed, stop, List.getLast?_eq_getElem?, List.length_take, List.length_drop,
    List.getElem?_take, List.getElem?_drop]
  by_cases h : f.first < f.stop
  · rw [if_pos h, if_pos rfl, if_pos (by omega)]
    congr 2
    omega
  · rw [if_neg h, if_neg (by omega)]
    rfl

section Contending

variable {kind : AggregateKind} {maximum : Bool}
  (hkind : .fresh kind = Accumulator.extreme ⟨maximum, []⟩)
  (hvalues : ∀ v ∈ values, v.Contends type)
include hkind hvalues

theorem fits_of_contends : Fits values kind := by
  cases kind with
  | min => exact ⟨type, fun v hv => ⟨(hvalues v hv).typed, (hvalues v hv).comparable⟩⟩
  | max => exact ⟨type, fun v hv => ⟨(hvalues v hv).typed, (hvalues v hv).comparable⟩⟩
  | _ => cases hkind

/-- The answer for one frame of values that can be told apart. -/
theorem ofFrame_lastBest (hf : InRows values f) :
    ∃ v, ofFrame values (.fresh kind) f = .ok v ∧
      LastBest maximum (windowOf values f.first.toNat (stop f).toNat) v := by
  have hwindow : ∀ e ∈ windowOf values f.first.toNat (stop f).toNat,
      e.value.isNull = false → e.value.Contends type :=
    contends_windowOf fun v hv _ => hvalues v hv
  have hall := @addAll_standing maximum type _ [] (List.forall_mem_nil _) hwindow
  rw [List.nil_append] at hall
  refine ⟨_, ?_, lastBest_standing maximum hwindow⟩
  rw [ofFrame_eq_addAll hkind hf]
  exact congrArg (Except.map extreme) hall

/-- Over values in order, the extreme of a frame stands at one of its ends. -/
theorem ofFrame_eq_atEnd (hplain : type.IsPlain) {last : Bool}
    (hsorted : values.Pairwise fun v w => w.outranks (maximum ^^ last) v = false)
    (hf : InRows values f) :
    ofFrame values (.fresh kind) f = .ok (Window.atEnd values last f) := by
  obtain ⟨v, hv, hbest⟩ := ofFrame_lastBest hkind hvalues hf
  have hframed := windowOf_framed hf
  have hcontends : ∀ e ∈ windowOf values f.first.toNat (stop f).toNat, e.value.Contends type := by
    refine List.forall_mem_map.mp (hframed ▸ fun v hv => hvalues v ?_)
    exact List.mem_of_mem_drop (List.mem_of_mem_take hv)
  have hsublist : (framed values f).Sublist values :=
    (List.take_sublist _ _).trans (List.drop_sublist _ _)
  have hordered := List.pairwise_map.mp (hframed ▸ hsorted.sublist hsublist)
  rw [hv]
  congr 1
  cases last with
  | false =>
    rw [Bool.xor_false] at hordered
    rw [atEnd_first values f hf.1, ← hframed]
    exact hbest.eq_head hplain hcontends hordered
  | true =>
    simp only [Bool.xor_true, Value.outranks_not] at hordered
    rw [atEnd_last hf, ← hframed]
    exact hbest.eq_getLast (fun e he => (hcontends e he).present) hordered

theorem overFrames_eq_atEnd (hplain : type.IsPlain) {last : Bool}
    (hsorted : values.Pairwise fun v w => w.outranks (maximum ^^ last) v = false)
    {frames : List Span} (hframes : ∀ f ∈ frames, InRows values f) :
    overFrames kind values frames = .ok (frames.map (Window.atEnd values last)) := by
  rw [overFrames_eq_recompute (fits_of_contends hkind hvalues) hframes]
  exact Result.mapM_eq_map fun f hf => ofFrame_eq_atEnd hkind hvalues hplain hsorted (hframes f hf)

end Contending

end FrameAggregate

/-- The same window with another function. -/
def WindowSpec.computing (spec : WindowSpec) (function : WindowFunction) : WindowSpec :=
  { spec with function := function }

namespace Window

variable {r : Relation} {spec : WindowSpec} {k : OrderKey} {rest : List OrderKey}
  {type : ColumnType} {frame : Option FrameSpec}

/-- The value at one end of the frame. -/
def endValue (last : Bool) (column : String) : WindowFunction :=
  if last then .lastValue column else .firstValue column

theorem evaluateRows_endValue (schema : Schema) (last : Bool) (column : String) (frame : FrameSpec)
    (rows : List (List Value)) :
    evaluateRows schema (spec.computing (endValue last column)) frame rows = (do
      let values ← columnOf schema column rows
      let spans ← FrameExtent.spans schema spec.orderBy rows frame
      pure (spans.map (atEnd values last))) := by
  cases last <;> rfl

theorem needsOrder_endValue (last : Bool) (column : String) :
    (spec.computing (endValue last column)).kind.needsOrder = false := by
  cases last <;> rfl

/-- Extremes and the values at the ends are refused alike. -/
theorem refusal_computing (schema : Schema) (kind : AggregateKind) (hkind : kind = .min ∨ kind = .max)
    (last : Bool) (column : String) :
    refusal schema (spec.computing (.aggregate kind column)) =
      refusal schema (spec.computing (endValue last column)) := by
  rw [refusal_of_frame rfl, refusal_of_frame (needsOrder_endValue last column)]
  rcases hkind with rfl | rfl <;> cases last <;> rfl

section Arranged

variable (hr : r.WellFormed) (horder : spec.orderBy = k :: rest)
  (htype : r.schema.typeOf k.column = .ok type) (hplain : type.IsPlain)
  (hpresent : ∀ i < r.size, (r.cell k.column i).isNull = false)
include hr htype hplain hpresent

theorem contends_cells {positions : List ℕ} (hin : ∀ i ∈ positions, i < r.size) :
    ∀ v ∈ positions.map (r.cell k.column), v.Contends type := by
  intro v hv
  obtain ⟨i, hi, rfl⟩ := List.mem_map.mp hv
  exact Value.contends_of_plain hplain (hr.conforms_cell htype i) (hpresent i (hin i hi))

theorem naNFree_of_plain (hnan : r.NaNFree rest) : r.NaNFree (k :: rest) :=
  List.forall_mem_cons.mpr ⟨fun i hi =>
    (Value.contends_of_plain hplain (hr.conforms_cell htype i) (hpresent i hi)).number, hnan⟩

/-- The first order column of an arranged partition is in order. -/
theorem outranks_of_positions (hnan : r.NaNFree rest) {partitionBy : List String}
    {parts : List Partition} (hparts : Arrangement.positions r partitionBy (k :: rest) = .ok parts)
    {p : Partition} (hp : p ∈ parts) : (p.positions.map (r.cell k.column)).Pairwise
      fun v w => w.outranks k.descending v = false := by
  obtain ⟨-, hin, -, hordered⟩ := FrameExtent.inOrder_of_positions hr
    (naNFree_of_plain hr htype hplain hpresent hnan) hparts hp
  have hcontends := contends_cells hr htype hplain hpresent hin
  rw [List.pairwise_map]
  refine hordered.imp_of_mem fun {i j} hi hj hij => ?_
  have hbefore := (Bool.or_eq_false_iff.mp hij).1
  exact (Value.before_eq_outranks k (hcontends _ (List.mem_map_of_mem hj))
    (hcontends _ (List.mem_map_of_mem hi))).symm.trans hbefore

include horder

/-- Over the frames of a partition, an extreme has the values at one of the ends. -/
theorem evaluateRows_extreme (hnan : r.NaNFree rest) {kind : AggregateKind} {maximum last : Bool}
    (hkind : .fresh kind = Accumulator.extreme ⟨maximum, []⟩)
    (hlast : (maximum ^^ last) = k.descending) {f : FrameSpec}
    (hmeasures : MeasuresOrder r.schema spec.orderBy f) {parts : List Partition}
    (hparts : Arrangement.positions r spec.partitionBy spec.orderBy = .ok parts) {p : Partition}
    (hp : p ∈ parts) :
    evaluateRows r.schema (spec.computing (.aggregate kind k.column)) f
        (Arrangement.rowsAt r p.positions) =
      evaluateRows r.schema (spec.computing (endValue last k.column)) f
        (Arrangement.rowsAt r p.positions) := by
  rw [horder] at hparts hmeasures
  obtain ⟨ho, hin, hc, -⟩ := FrameExtent.inOrder_of_positions hr
    (naNFree_of_plain hr htype hplain hpresent hnan) hparts hp
  have hvalues := columnOf_eq hin (Schema.mem_names_of_typeOf htype)
  have hspans := FrameExtent.spans_yields hr hin ho hc hmeasures
  have hsorted := outranks_of_positions hr htype hplain hpresent hnan hparts hp
  rw [← hlast] at hsorted
  rw [evaluateRows_endValue]
  simp only [evaluateRows, WindowSpec.computing, hvalues, horder, Result.ok_bind]
  rcases hspans with hover | ⟨spans, hok, -, hwithin⟩
  · rw [hover]
    rfl
  · rw [hok, Result.ok_bind, Result.ok_bind, FrameAggregate.overFrames_eq_atEnd hkind
      (contends_cells hr htype hplain hpresent hin) hplain hsorted fun s hs =>
        FrameAggregate.inRows_of_within (by simpa using hwithin s hs)]
    rfl

theorem evaluate_extreme (hnan : r.NaNFree rest) {kind : AggregateKind} {maximum last : Bool}
    (hkind : .fresh kind = Accumulator.extreme ⟨maximum, []⟩)
    (hlast : (maximum ^^ last) = k.descending) :
    evaluate r (spec.computing (.aggregate kind k.column)) =
      evaluate r (spec.computing (endValue last k.column)) := by
  have hextreme : kind = .min ∨ kind = .max := by
    cases kind <;> first | exact .inl rfl | exact .inr rfl | cases hkind
  refine evaluate_congr rfl rfl (refusal_computing r.schema kind hextreme last k.column)
    fun f f' parts hv hv' hparts p hp => ?_
  have hf := frame_of_validate hv (needsOrder_endValue last k.column)
  have hf' := frame_of_validate hv' rfl
  have hmeasures := (validate_eq_ok hv).measuresOrder
  rw [hf] at hmeasures
  rw [hf, hf']
  exact evaluateRows_extreme hr horder htype hplain hpresent hnan hkind hlast hmeasures hparts hp

end Arranged

/-- Values that are null in the rows whose frame is empty, and in no other. -/
def NullOnEmpty (r : Relation) (spec : WindowSpec) (frame : FrameSpec) (values : List Value) : Prop :=
  ∃ parts, Arrangement.positions r spec.partitionBy spec.orderBy = .ok parts ∧
    (parts.flatMap Partition.positions).Perm (List.range r.size) ∧ ∀ p ∈ parts, ∃ spans,
      FrameExtent.spans r.schema spec.orderBy (Arrangement.rowsAt r p.positions) frame = .ok spans ∧
      spans.length = p.positions.length ∧ ∀ (place i : ℕ) s, p.positions[place]? = some i →
        spans[place]? = some s → (values[i]? = some .null ↔ s.stop ≤ s.first)

/-- The value at an end of a frame is missing only where the frame has no rows. -/
theorem atEnd_eq_null_iff {values : List Value} (hvalues : ∀ v ∈ values, v.isNull = false) {s : Span}
    (hs : s.Within values.length) (last : Bool) : atEnd values last s = .null ↔ s.stop ≤ s.first := by
  obtain ⟨hfirst, -, -, hstop⟩ := hs
  rw [atEnd]
  by_cases h : s.first < s.stop
  · rw [if_pos h]
    have hlt : (if last then s.stop - 1 else s.first).toNat < values.length := by
      cases last <;> simp <;> omega
    rw [List.getElem?_eq_getElem hlt, Option.getD_some]
    refine iff_of_false (fun hnull => ?_) (by omega)
    have hmem := hvalues _ (List.getElem_mem hlt)
    rw [hnull] at hmem
    cases hmem
  · rw [if_neg h]
    exact iff_of_true rfl (by omega)

/-- Where the value at an end of the frames answers, it is null over the empty ones alone. -/
theorem nullOnEmpty_endValue (hr : r.WellFormed)
    (hpresent : ∀ i < r.size, (r.cell k.column i).isNull = false) {last : Bool}
    (hv : validate r.schema (spec.computing (endValue last k.column)) = .ok frame) {values : List Value}
    (h : evaluate r (spec.computing (endValue last k.column)) = .ok values) :
    values.length = r.size ∧ NullOnEmpty r spec (frame.getD spec.defaultFrame) values := by
  have hvalid := validate_eq_ok hv
  obtain ⟨output, houtput⟩ := exists_outputType hvalid
  obtain ⟨hanswers, hresults⟩ := (evaluate_yields hr hv houtput).of_ok h
  obtain ⟨parts, hparts⟩ : ∃ parts, Arrangement.positions r spec.partitionBy spec.orderBy = .ok parts := by
    rw [evaluate, hv, Result.ok_bind] at h
    obtain ⟨parts, hparts, -⟩ := Result.bind_eq_ok.mp h
    exact ⟨parts, hparts⟩
  refine ⟨hanswers.length, parts, hparts, Arrangement.positions_perm hparts, fun p hp => ?_⟩
  have hin := Arrangement.lt_size_of_positions hparts hp
  obtain ⟨-, -, hc, -⟩ := Arrangement.passed_of_positions hparts
  have hcolumn : k.column ∈ r.names := hvalid.argument k.column (by cases last <;> rfl)
  obtain ⟨results, hrows, hplaced⟩ := hresults parts hparts p hp
  rw [evaluateRows_endValue, columnOf_eq hin hcolumn, Result.ok_bind] at hrows
  obtain ⟨spans, hspans, hrows⟩ := Result.bind_eq_ok.mp hrows
  cases hrows
  have hwithin := (FrameExtent.spans_yields hr hin hvalid.orderColumns
    (fun k hk i hi => hc k hk i (hin i hi)) hvalid.measuresOrder).of_ok hspans
  refine ⟨spans, hspans, hwithin.1, fun place i s hi hs => ?_⟩
  have hvalue : values[i]? = some (atEnd (p.positions.map (r.cell k.column)) last s) := by
    have hat := congrArg (·[place]?) hplaced
    simpa [hi, hs] using hat
  rw [hvalue, Option.some_inj]
  refine atEnd_eq_null_iff (List.forall_mem_map.mpr fun i hi => hpresent i (hin i hi)) ?_ last
  simpa using hwithin.2 s (List.mem_of_getElem? hs)

/-- A function has a value for every row, null over the empty frames alone, unless something is out
of range. -/
def Fills (r : Relation) (spec : WindowSpec) : Prop :=
  ∀ frame, validate r.schema spec = .ok frame →
    (evaluate r spec = .error .overflow ∧ OutOfRange r spec (frame.getD spec.defaultFrame)) ∨
      ∃ values, evaluate r spec = .ok values ∧ values.length = r.size ∧
        NullOnEmpty r spec (frame.getD spec.defaultFrame) values

/-- What has the values at an end of the frames fills as they do. -/
theorem fills_of_eq_endValue (hr : r.WellFormed) (hnan : r.NaNFree spec.orderBy)
    (hpresent : ∀ i < r.size, (r.cell k.column i).isNull = false) {function : WindowFunction}
    {last : Bool} (hneeds : (spec.computing function).kind.needsOrder = false)
    (hrefusal : refusal r.schema (spec.computing function) =
      refusal r.schema (spec.computing (endValue last k.column)))
    (heq : evaluate r (spec.computing function) =
      evaluate r (spec.computing (endValue last k.column))) : Fills r (spec.computing function) := by
  intro frame hv
  have hrefused : refusal r.schema (spec.computing function) = .ok () := by rw [refusal, hv]; rfl
  obtain ⟨frame', hv', -⟩ := Result.map_eq_ok.mp (hrefusal.symm.trans hrefused)
  have hframe := frame_of_validate hv hneeds
  have hframe' := frame_of_validate hv' (needsOrder_endValue last k.column)
  obtain rfl : frame' = frame := hframe'.trans hframe.symm
  cases h : evaluate r (spec.computing (endValue last k.column)) with
  | ok values => exact .inr ⟨values, heq.trans h, nullOnEmpty_endValue hr hpresent hv' h⟩
  | error e =>
    obtain ⟨output, houtput⟩ := exists_outputType (validate_eq_ok hv')
    have hover : evaluate r (spec.computing function) = .error .overflow := by
      rcases evaluate_yields hr hv' houtput with hover | ⟨values, hvalues, -⟩
      · exact heq.trans hover
      · rw [hvalues] at h
        cases h
    exact .inl ⟨hover, outOfRange_of_evaluate hr hv hnan hover⟩

/-- Over any frames of a window whose first order column has a type that is told apart by its order
and no nulls, the minimum of that column stands at the start of the frame and the maximum at its stop
where the column ascends, and the other way round where it descends. All of them are null over the
empty frames alone. -/
theorem extremes_at_ends (hr : r.WellFormed) (horder : spec.orderBy = k :: rest)
    (htype : r.schema.typeOf k.column = .ok type)
    (hplain : type = .integer ∨ type = .text ∨ type = .date ∨ type = .boolean)
    (hpresent : ∀ i < r.size, (r.cell k.column i).isNull = false) (hnan : r.NaNFree rest) :
    (k.direction = .asc →
      evaluate r (spec.computing (.aggregate .min k.column)) =
          evaluate r (spec.computing (.firstValue k.column)) ∧
        evaluate r (spec.computing (.aggregate .max k.column)) =
          evaluate r (spec.computing (.lastValue k.column))) ∧
    (k.direction = .desc →
      evaluate r (spec.computing (.aggregate .min k.column)) =
          evaluate r (spec.computing (.lastValue k.column)) ∧
        evaluate r (spec.computing (.aggregate .max k.column)) =
          evaluate r (spec.computing (.firstValue k.column))) ∧
    Fills r (spec.computing (.aggregate .min k.column)) ∧
    Fills r (spec.computing (.aggregate .max k.column)) ∧
    Fills r (spec.computing (.firstValue k.column)) ∧
    Fills r (spec.computing (.lastValue k.column)) := by
  have hmin : evaluate r (spec.computing (.aggregate .min k.column)) =
      evaluate r (spec.computing (endValue k.descending k.column)) :=
    evaluate_extreme hr horder htype hplain hpresent hnan rfl (Bool.false_xor _)
  have hmax : evaluate r (spec.computing (.aggregate .max k.column)) =
      evaluate r (spec.computing (endValue (!k.descending) k.column)) :=
    evaluate_extreme hr horder htype hplain hpresent hnan rfl (by simp)
  have hnumbers : r.NaNFree spec.orderBy :=
    horder ▸ naNFree_of_plain hr htype hplain hpresent hnan
  refine ⟨fun hasc => ?_, fun hdesc => ?_,
    fills_of_eq_endValue hr hnumbers hpresent rfl (refusal_computing _ _ (.inl rfl) _ _) hmin,
    fills_of_eq_endValue hr hnumbers hpresent rfl (refusal_computing _ _ (.inr rfl) _ _) hmax,
    @fills_of_eq_endValue r spec k hr hnumbers hpresent (.firstValue k.column) false rfl rfl rfl,
    @fills_of_eq_endValue r spec k hr hnumbers hpresent (.lastValue k.column) true rfl rfl rfl⟩
  · have hascends : k.descending = false := by simp [OrderKey.descending, hasc]
    rw [hascends] at hmin hmax
    exact ⟨hmin, hmax⟩
  · have hdescends : k.descending = true := by simp [OrderKey.descending, hdesc]
    rw [hdescends] at hmin hmax
    exact ⟨hmin, hmax⟩

theorem depot_named : "depot" ≠ "" := by decide

theorem weight_named : "weight" ≠ "" := by decide

/-- What was loaded at two depots. -/
def parcels : Relation :=
  ⟨⟨[⟨"depot", .text, depot_named⟩, ⟨"weight", .integer, weight_named⟩], by decide⟩,
    [[.text "quay", .int 4], [.text "yard", .int 3], [.text "quay", .int 9], [.text "quay", .int 4],
      [.text "quay", .int 6]]⟩

/-- The two heavier parcels in front of each one, the heaviest in front. -/
def heavier : WindowSpec :=
  ⟨.firstValue "weight", ["depot"], [⟨"weight", .desc, .first⟩],
    some ⟨.rows, .preceding (.whole 2), .preceding (.whole 1)⟩, none⟩

theorem extremes_at_ends_parcels :
    evaluate parcels (heavier.computing (.aggregate .min "weight")) =
      .ok [.int 6, .null, .null, .int 4, .int 9] ∧
    evaluate parcels (heavier.computing (.aggregate .max "weight")) =
      .ok [.int 9, .null, .null, .int 6, .int 9] := by
  obtain ⟨-, hdesc, -⟩ := @extremes_at_ends parcels heavier ⟨"weight", .desc, .first⟩ [] .integer
    (by decide) rfl rfl (.inl rfl) (by decide) (by decide)
  obtain ⟨hmin, hmax⟩ := hdesc rfl
  exact ⟨hmin.trans (by cbv), hmax.trans (by cbv)⟩

end Window
end OrderedRelations
