import OrderedRelations.Proofs.Window.ExtremeQueue
import OrderedRelations.Proofs.Window.Totals

/-!
# Extremes beside what is not a number

What is not a number overtakes nothing and is never overtaken, so it keeps in the queue whatever
stands in front of it. The extreme of a frame of doubles is therefore the best value in front of the
first that is not a number, whatever stands behind: a better number there is hidden.
-/

namespace OrderedRelations

namespace RunningExtreme

variable {maximum : Bool}

/-- Lets entries in one by one. -/
def addAll : List Entry → RunningExtreme → Result RunningExtreme
  | [], s => .ok s
  | e :: rest, s => do
    let s ← s.add e.position e.value
    addAll rest s

theorem addAll_append (entries more : List Entry) (s : RunningExtreme) :
    addAll (entries ++ more) s = addAll entries s >>= addAll more := by
  induction entries generalizing s with
  | nil => rfl
  | cons e rest ih =>
    rw [List.cons_append, addAll, addAll]
    cases s.add e.position e.value with
    | error failure => rfl
    | ok s' => exact ih s'

theorem addAll_standing {type : ColumnType} {entries window : List Entry}
    (hwindow : ∀ e ∈ window, e.value.isNull = false → e.value.Contends type)
    (hentries : ∀ e ∈ entries, e.value.isNull = false → e.value.Contends type) :
    addAll entries ⟨maximum, standing maximum window⟩ =
      .ok ⟨maximum, standing maximum (window ++ entries)⟩ := by
  induction entries generalizing window with
  | nil => rw [List.append_nil, addAll]
  | cons e rest ih =>
    obtain ⟨he, hrest⟩ := List.forall_mem_cons.mp hentries
    have hsnoc : ∀ f ∈ window ++ [e], f.value.isNull = false → f.value.Contends type :=
      List.forall_mem_append.mpr ⟨hwindow, List.forall_mem_singleton.mpr he⟩
    rw [addAll, add_standing he hwindow, Result.ok_bind, ih hsnoc hrest, List.append_assoc,
      List.singleton_append]

theorem overtakes_doubles (x y : Binary64) : overtakes maximum (.float x) (.float y) =
    .ok (if maximum then (Quantity.real y).atMost (.real x)
      else (Quantity.real x).atMost (.real y)) := by
  cases maximum <;> simp [overtakes, Value.comparable?, Value.atMost?, Value.less?,
    Value.quantity?, Quantity.atMost, Value.same_eq_of_quantity]

theorem overtakes_nan {x y : Binary64} (h : x.isNan = true ∨ y.isNan = true) :
    overtakes maximum (.float x) (.float y) = .ok false := by
  have hatMost : ∀ {x y : Binary64}, x.isNan = true ∨ y.isNan = true →
      (Quantity.real x).atMost (.real y) = false := by
    intro x y h
    cases x <;> cases y <;> simp [Quantity.atMost, Quantity.less, Quantity.same, Quantity.place?,
      Binary64.place?, Binary64.isNan] at h ⊢
  rw [overtakes_doubles, hatMost h, hatMost h.symm, ite_self]

/-- Dropping stops at an entry that is not overtaken, at the latest. -/
theorem dropOvertaken_stops {v : Value} {e : Entry} (he : overtakes maximum v e.value = .ok false)
    {es : List Entry} (hes : ∀ f ∈ es, ∃ b, overtakes maximum v f.value = .ok b)
    (rest : List Entry) :
    ∃ kept, dropOvertaken maximum v (es ++ e :: rest) = .ok (kept ++ e :: rest) ∧
      ∀ f ∈ kept, f ∈ es := by
  induction es with
  | nil => exact ⟨[], by simp [dropOvertaken, he], by simp⟩
  | cons f es ih =>
    obtain ⟨⟨b, hb⟩, hes⟩ := List.forall_mem_cons.mp hes
    cases b with
    | false => exact ⟨f :: es, by simp [dropOvertaken, hb], fun g hg => hg⟩
    | true =>
      obtain ⟨kept, hkept, hsub⟩ := ih hes
      refine ⟨kept, by simp [dropOvertaken, hb, hkept], fun g hg => ?_⟩
      exact List.mem_cons_of_mem f (hsub g hg)

/-- A null, or a double. -/
theorem null_or_double {v : Value} (h : v.conforms .float = true) :
    v = .null ∨ ∃ x, v = .float x := by
  cases v <;> simp [Value.conforms] at h ⊢

theorem exists_nan {v : Value} (h : v.isNaN = true) : ∃ x, v = .float x ∧ x.isNan = true := by
  cases v with
  | float x => exact ⟨x, rfl, by cases x <;> first | rfl | cases h⟩
  | _ => cases h

/-- What is not a number goes behind the entries of doubles. -/
theorem add_nan {window : List Entry} (hwindow : ∀ e ∈ window, ∃ x, e.value = .float x)
    (position : ℤ) {v : Value} (hv : v.isNaN = true) :
    add ⟨maximum, window⟩ position v = .ok ⟨maximum, window ++ [⟨position, v⟩]⟩ := by
  obtain ⟨x, rfl, hx⟩ := exists_nan hv
  rw [add_eq_ok rfl]
  refine ⟨window.reverse, ?_, by rw [List.reverse_reverse]⟩
  cases hback : window.reverse with
  | nil => rfl
  | cons e rest =>
    obtain ⟨y, hy⟩ := hwindow e (List.mem_reverse.mp (hback ▸ List.mem_cons_self))
    simp [dropOvertaken, hy, overtakes_nan (.inl hx)]

/-- Whatever enters behind what is not a number leaves it standing, with all in front of it. -/
theorem addAll_behind_nan {front behind entries : List Entry} {b : Entry}
    (hb : b.value.isNaN = true) (hbehind : ∀ e ∈ behind, ∃ x, e.value = .float x)
    (hentries : ∀ e ∈ entries, e.value.conforms .float = true) :
    ∃ kept, addAll entries ⟨maximum, front ++ b :: behind⟩ =
      .ok ⟨maximum, front ++ b :: kept⟩ := by
  induction entries generalizing behind with
  | nil => exact ⟨behind, rfl⟩
  | cons e rest ih =>
    obtain ⟨he, hrest⟩ := List.forall_mem_cons.mp hentries
    rcases null_or_double he with hnull | ⟨x, hx⟩
    · obtain ⟨kept, hkept⟩ := ih hbehind hrest
      exact ⟨kept, by rw [addAll, hnull]; exact hkept⟩
    · obtain ⟨y, hy, hnan⟩ := exists_nan hb
      have hstops : overtakes maximum (.float x) b.value = .ok false := by
        rw [hy, overtakes_nan (.inr hnan)]
      have hover : ∀ f ∈ behind.reverse, ∃ c, overtakes maximum (.float x) f.value = .ok c := by
        intro f hf
        obtain ⟨z, hz⟩ := hbehind f (List.mem_reverse.mp hf)
        exact ⟨_, by rw [hz, overtakes_doubles]⟩
      obtain ⟨kept, hkept, hsub⟩ := dropOvertaken_stops hstops hover front.reverse
      have hadd : add ⟨maximum, front ++ b :: behind⟩ e.position (.float x) =
          .ok ⟨maximum, front ++ b :: (kept.reverse ++ [⟨e.position, .float x⟩])⟩ := by
        rw [add_eq_ok rfl]
        exact ⟨_, by simpa using hkept, by simp⟩
      rw [addAll, hx, hadd, Result.ok_bind]
      refine ih (fun f hf => ?_) hrest
      rcases List.mem_append.mp hf with hf | hf
      · exact hbehind f (List.mem_reverse.mp (hsub f (List.mem_reverse.mp hf)))
      · rw [List.mem_singleton.mp hf]
        exact ⟨x, rfl⟩

/-- The values of a stretch in front of the first that is not a number. -/
def leading (stretch : List Value) : List Value := stretch.takeWhile fun v => !v.isNaN

/-- The best of the values in front of the first that is not a number, or that one where only nulls
stand in front of it. -/
inductive FrontBest (maximum : Bool) (stretch : List Value) : Value → Prop
  | number {v : Value} (hv : v ∈ leading stretch) (hpresent : v.isNull = false)
      (hbest : ∀ w ∈ leading stretch, w.isNull = false → w.outranks maximum v = false) :
      FrontBest maximum stretch v
  | nothing (h : ∀ v ∈ leading stretch, v.isNull = true) :
      FrontBest maximum stretch ((stretch.find? Value.isNaN).getD .null)

theorem frontBest_of_lastBest {type : ColumnType} {front : List Entry} {v : Value}
    (hfront : ∀ e ∈ front, e.value.isNull = false → e.value.Contends type)
    (h : LastBest maximum front v) : ((∀ e ∈ front, e.value.isNull = true) ∧ v = .null) ∨
      v ∈ front.map Entry.value ∧ v.isNull = false ∧
        ∀ w ∈ front.map Entry.value, w.isNull = false → w.outranks maximum v = false := by
  cases h with
  | nothing hnull => exact .inl ⟨hnull, rfl⟩
  | @best before after e hsplit hpresent hbefore hafter =>
    subst hsplit
    have he : e.value.Contends type := hfront e (by simp) hpresent
    refine .inr ⟨by simp, hpresent, fun w hw hw' => ?_⟩
    obtain ⟨f, hf, rfl⟩ := List.mem_map.mp hw
    have hcf : f.value.Contends type := hfront f hf hw'
    rcases List.mem_append.mp hf with hf | hf
    · exact hbefore f hf hw'
    · rcases List.mem_cons.mp hf with rfl | hf
      · by_contra hself
        rw [Bool.not_eq_false] at hself
        rw [he.outranks_asymm he hself] at hself
        cases hself
      · exact he.outranks_asymm hcf (hafter f hf hw')

section Split

variable {front rest : List Value}

theorem leading_append (hfront : ∀ v ∈ front, v.isNaN = false)
    (hrest : ∀ b ∈ rest.head?, b.isNaN = true) : leading (front ++ rest) = front := by
  have hnumbers : ∀ v ∈ front, (!v.isNaN) = true := fun v hv => by rw [hfront v hv, Bool.not_false]
  rw [leading, List.takeWhile_append_of_pos hnumbers]
  cases rest with
  | nil => exact List.append_nil front
  | cons b behind => rw [List.takeWhile_cons_of_neg (by simp [hrest b rfl]), List.append_nil]

theorem find?_append (hfront : ∀ v ∈ front, v.isNaN = false)
    (hrest : ∀ b ∈ rest.head?, b.isNaN = true) :
    (front ++ rest).find? Value.isNaN = rest.head? := by
  have hnone : front.find? Value.isNaN = none := by simpa using hfront
  rw [List.find?_append, hnone, Option.none_or]
  cases rest with
  | nil => rfl
  | cons b behind => exact List.find?_cons_of_pos (hrest b rfl)

end Split

theorem contends_double {v : Value} (htyped : v.conforms .float = true) (hnumber : v.isNaN = false)
    (hpresent : v.isNull = false) : v.Contends .float := by
  refine ⟨htyped, hnumber, ?_, hpresent⟩
  rcases null_or_double htyped with rfl | ⟨x, rfl⟩ <;> rfl

/-- Behind the queue of the values in front, what is not a number answers only where that queue is
empty. -/
theorem frontBest_standing {front rest kept : List Entry}
    (htyped : ∀ e ∈ front, e.value.conforms .float = true)
    (hnumber : ∀ e ∈ front, e.value.isNaN = false)
    (hrest : ∀ b ∈ rest.head?, b.value.isNaN = true) (hkept : kept.head? = rest.head?) :
    FrontBest maximum ((front ++ rest).map Entry.value)
      (extreme ⟨maximum, standing maximum front ++ kept⟩) := by
  have hcontends : ∀ e ∈ front, e.value.isNull = false → e.value.Contends .float :=
    fun e he => contends_double (htyped e he) (hnumber e he)
  have hnumbers : ∀ v ∈ front.map Entry.value, v.isNaN = false := List.forall_mem_map.mpr hnumber
  have hhead : ∀ v ∈ (rest.map Entry.value).head?, v.isNaN = true := by
    intro v hv
    rw [List.head?_map, Option.mem_map] at hv
    obtain ⟨b, hb, rfl⟩ := hv
    exact hrest b hb
  have hleading := leading_append hnumbers hhead
  have hfind := find?_append hnumbers hhead
  rw [List.head?_map, ← hkept] at hfind
  rw [List.map_append]
  have hbest := frontBest_of_lastBest hcontends (lastBest_standing maximum hcontends)
  cases hwindow : standing maximum front with
  | cons e es =>
    rw [hwindow] at hbest
    rcases hbest with ⟨-, hnull⟩ | ⟨hmem, hpresent, hbest⟩
    · exact absurd hnull (ne_null_of_standing (hwindow ▸ List.mem_cons_self))
    · exact .number (hleading.symm ▸ hmem) hpresent (hleading.symm ▸ hbest)
  | nil =>
    rw [hwindow] at hbest
    rcases hbest with ⟨hnull, -⟩ | ⟨-, hpresent, -⟩
    · have hanswer : FrontBest maximum (front.map Entry.value ++ rest.map Entry.value) _ :=
        .nothing (by rw [hleading]; exact List.forall_mem_map.mpr hnull)
      rw [hfind] at hanswer
      cases kept <;> exact hanswer
    · cases hpresent

/-- Whatever doubles and nulls enter, the extreme is the best in front of the first that is not a
number. -/
theorem addAll_doubles (maximum : Bool) {entries : List Entry}
    (h : ∀ e ∈ entries, e.value.conforms .float = true) :
    ∃ s, addAll entries ⟨maximum, []⟩ = .ok s ∧
      FrontBest maximum (entries.map Entry.value) s.extreme := by
  have hqueue : ∀ front : List Entry, (∀ e ∈ front, e.value.conforms .float = true) →
      (∀ e ∈ front, e.value.isNaN = false) →
      addAll front ⟨maximum, []⟩ = .ok ⟨maximum, standing maximum front⟩ :=
    fun front htyped hnumber => addAll_standing (List.forall_mem_nil _)
      fun e he => contends_double (htyped e he) (hnumber e he)
  cases hfind : entries.find? fun e => e.value.isNaN with
  | none =>
    have hnumber : ∀ e ∈ entries, e.value.isNaN = false := by simpa using hfind
    have hbest : FrontBest maximum ((entries ++ []).map Entry.value)
        (extreme ⟨maximum, standing maximum entries ++ []⟩) :=
      frontBest_standing h hnumber (by simp) rfl
    rw [List.append_nil, List.append_nil] at hbest
    exact ⟨_, hqueue entries h hnumber, hbest⟩
  | some b =>
    obtain ⟨hb, front, behind, rfl, hnot⟩ := List.find?_eq_some_iff_append.mp hfind
    have hnumber : ∀ e ∈ front, e.value.isNaN = false := by simpa using hnot
    obtain ⟨hfront, hrest⟩ := List.forall_mem_append.mp h
    obtain ⟨-, hbehind⟩ := List.forall_mem_cons.mp hrest
    have hdoubles : ∀ e ∈ standing maximum front, ∃ x, e.value = .float x := fun e he =>
      (null_or_double (hfront e ((standing_sublist front).subset he))).resolve_left
        (ne_null_of_standing he)
    obtain ⟨kept, hkept⟩ : ∃ kept, addAll behind ⟨maximum, standing maximum front ++ [b]⟩ =
        .ok ⟨maximum, standing maximum front ++ b :: kept⟩ :=
      addAll_behind_nan hb (List.forall_mem_nil _) hbehind
    refine ⟨⟨maximum, standing maximum front ++ b :: kept⟩, ?_,
      frontBest_standing hfront hnumber (by simpa using hb) rfl⟩
    rw [addAll_append, hqueue front hfront hnumber, Result.ok_bind, addAll,
      add_nan hdoubles _ hb, Result.ok_bind]
    exact hkept

end RunningExtreme

namespace FrameAggregate

open RunningExtreme

variable {values : List Value}

theorem windowOf_value {first last : ℕ} (h : last ≤ values.length) :
    (windowOf values first last).map Entry.value = (values.drop first).take (last - first) := by
  refine List.ext_getElem (by simp [windowOf]; omega) fun i hi hi' => ?_
  simp only [windowOf, List.map_map, List.length_map, List.length_range'] at hi
  have hlt : first + i < values.length := by omega
  simp [windowOf, entryAt, Arrangement.valueAt, List.getElem?_eq_getElem hlt]

/-- Values enter an extreme one by one. -/
theorem enter_extreme {count next : ℕ} (h : next + count ≤ values.length) (s : RunningExtreme) :
    enter values count next (.extreme s) =
      (addAll (windowOf values next (next + count)) s).map .extreme := by
  induction count generalizing next s with
  | zero => simp [enter, windowOf, addAll, Result.map_ok]
  | succ count ih =>
    have hv := getElem?_entryAt (by omega : next < values.length)
    have hposition : (entryAt values next).position = (next : ℤ) := rfl
    rw [windowOf_leave (by omega : next < next + (count + 1)), addAll, hposition, enter, hv,
      Result.orElse_some, Result.ok_bind, Accumulator.add]
    cases s.add next (entryAt values next).value with
    | error e => rfl
    | ok s' =>
      have hrest := ih (by omega : next + 1 + count ≤ values.length) s'
      rw [show next + 1 + count = next + (count + 1) by omega] at hrest
      exact hrest

/-- The extreme of a frame is that of its entries. -/
theorem ofFrame_eq_addAll {maximum : Bool} {kind : AggregateKind}
    (hkind : .fresh kind = Accumulator.extreme ⟨maximum, []⟩) {f : Span} (hf : InRows values f) :
    ofFrame values (.fresh kind) f =
      (addAll (windowOf values f.first.toNat (stop f).toNat) ⟨maximum, []⟩).map extreme := by
  have hstop : (stop f).toNat ≤ values.length := by have := hf.2; omega
  have hfirst : f.first.toNat ≤ (stop f).toNat := by
    have : f.first ≤ stop f := Int.le_max_left _ _
    omega
  have hcount : f.first.toNat + ((stop f).toNat - f.first.toNat) = (stop f).toNat := by omega
  rw [ofFrame_eq hf, hkind, enter_extreme (by omega), hcount]
  cases addAll (windowOf values f.first.toNat (stop f).toNat) ⟨maximum, []⟩ <;> rfl

/-- The entries of a frame have the values between its ends. -/
theorem windowOf_framed {f : Span} (hf : InRows values f) :
    (windowOf values f.first.toNat (stop f).toNat).map Entry.value = framed values f :=
  windowOf_value (by have := hf.2; omega)

/-- The answer for one frame of doubles. -/
theorem ofFrame_extreme {maximum : Bool} {kind : AggregateKind}
    (hkind : .fresh kind = Accumulator.extreme ⟨maximum, []⟩)
    (hvalues : ∀ v ∈ values, v.conforms .float = true) {f : Span} (hf : InRows values f) :
    ∃ v, ofFrame values (.fresh kind) f = .ok v ∧ FrontBest maximum (framed values f) v := by
  have hentries : ∀ e ∈ windowOf values f.first.toNat (stop f).toNat,
      e.value.conforms .float = true := by
    intro e he
    have hmem := List.mem_map_of_mem (f := Entry.value) he
    rw [windowOf_framed hf] at hmem
    exact hvalues _ (List.mem_of_mem_drop (List.mem_of_mem_take hmem))
  obtain ⟨s, hs, hbest⟩ := addAll_doubles maximum hentries
  rw [windowOf_framed hf] at hbest
  exact ⟨s.extreme, by rw [ofFrame_eq_addAll hkind hf, hs]; rfl, hbest⟩

end FrameAggregate

/-- Whether one value is no worse than another: at most as high for a minimum, at least as high for
a maximum. -/
def Value.reaches (maximum : Bool) (v w : Value) : Bool :=
  (if maximum then w.atMost? v else v.atMost? w) == some true

/-- Whether a value is a double that is a number, infinities among them. -/
def Value.isNumber (v : Value) : Bool := !v.isNull && !v.isNaN

/-- What the extreme of a stretch of doubles should be: what is not a number, or a value of the
stretch that reaches every number of it. -/
def Extremal (maximum : Bool) (stretch : List Value) (v : Value) : Prop :=
  v.isNaN = true ∨ v ∈ stretch ∧ v.isNull = false ∧
    ∀ w ∈ stretch, w.isNumber = true → v.reaches maximum w = true

/-- Whether what is not a number hides the extreme of a stretch: there are numbers in front of it,
and a number of the stretch outranks all of them. -/
def Hidden (maximum : Bool) (stretch : List Value) : Prop :=
  (∃ v ∈ RunningExtreme.leading stretch, v.isNumber = true) ∧
    ∃ w ∈ stretch, w.isNumber = true ∧
      ∀ v ∈ RunningExtreme.leading stretch, v.isNumber = true → w.outranks maximum v = true

instance (maximum : Bool) (stretch : List Value) : Decidable (Hidden maximum stretch) :=
  inferInstanceAs (Decidable (_ ∧ _))

namespace RunningExtreme

variable {maximum : Bool}

theorem reaches_eq {v w : Value} (hv : v.Contends .float) (hw : w.Contends .float) :
    v.reaches maximum w = !w.outranks maximum v := by
  rcases null_or_double hv.typed with rfl | ⟨x, rfl⟩
  · cases hv.present
  rcases null_or_double hw.typed with rfl | ⟨y, rfl⟩
  · cases hw.present
  have hover : overtakes maximum (.float x) (.float y) = _ := overtakes_eq hv hw
  rw [overtakes, Value.comparable?, Value.comparable?, Result.orElse_some, Result.orElse_some,
    Result.ok_bind, Result.ok_bind, Result.orElse_eq_ok] at hover
  · rw [Value.reaches, hover]
    cases (Value.float y).outranks maximum (.float x) <;> rfl
  all_goals rintro t ⟨⟩

/-- The best in front of the first that is not a number is the extreme unless it hides that. -/
theorem FrontBest.extremal_iff {stretch : List Value} {v : Value}
    (hdoubles : ∀ w ∈ stretch, w.conforms .float = true) (hsome : ∃ w ∈ stretch, w.isNull = false)
    (h : FrontBest maximum stretch v) : Extremal maximum stretch v ↔ ¬ Hidden maximum stretch := by
  have hcontends : ∀ w ∈ stretch, w.isNumber = true → w.Contends .float := by
    intro w hw hnumber
    simp only [Value.isNumber, Bool.and_eq_true, Bool.not_eq_true'] at hnumber
    exact contends_double (hdoubles w hw) hnumber.2 hnumber.1
  have hleading : ∀ w ∈ leading stretch, w ∈ stretch ∧ w.isNaN = false := fun w hw =>
    ⟨(List.takeWhile_sublist _).subset hw, by simpa using List.mem_takeWhile_imp hw⟩
  cases h with
  | number hv hpresent hbest =>
    obtain ⟨hmem, hnan⟩ := hleading v hv
    have hnumber : v.isNumber = true := by rw [Value.isNumber, hpresent, hnan]; rfl
    have hcv := hcontends v hmem hnumber
    constructor
    · rintro hextremal ⟨-, w, hw, hnw, hall⟩
      rcases hextremal with hnan' | ⟨-, -, hreach⟩
      · rw [hnan] at hnan'
        cases hnan'
      · have hout := hreach w hw hnw
        rw [reaches_eq hcv (hcontends w hw hnw), hall v hv hnumber] at hout
        cases hout
    · intro hhidden
      refine .inr ⟨hmem, hpresent, fun w hw hnw => ?_⟩
      have hcw := hcontends w hw hnw
      by_contra hreach
      rw [reaches_eq hcv hcw, Bool.not_eq_true', Bool.not_eq_false] at hreach
      refine hhidden ⟨⟨v, hv, hnumber⟩, w, hw, hnw, fun u hu hnu => ?_⟩
      have hcu := hcontends u (hleading u hu).1 hnu
      exact hcw.outranks_of_reached hcv hcu hreach (hbest u hu hcu.present)
  | nothing hnull =>
    refine iff_of_true (.inl ?_) ?_
    · cases hfind : stretch.find? Value.isNaN with
      | some b => exact List.find?_some hfind
      | none =>
        obtain ⟨w, hw, hpresent⟩ := hsome
        have hall : ∀ u ∈ stretch, u.isNaN = false := by simpa using hfind
        have hself : leading (stretch ++ []) = stretch := leading_append hall (by simp)
        rw [List.append_nil] at hself
        rw [hnull w (hself.symm ▸ hw)] at hpresent
        cases hpresent
    · rintro ⟨⟨w, hw, hnumber⟩, -⟩
      rw [Value.isNumber, hnull w hw] at hnumber
      cases hnumber

end RunningExtreme

namespace FrameAggregate

open RunningExtreme

/-- Over frames of doubles, the extreme is the best in front of the first that is not a number. That
is the extreme of the frame, wherever the frame has one, unless a better number is hidden. -/
theorem extremes_extremal_iff (maximum : Bool) {values : List Value}
    (hvalues : ∀ v ∈ values, v.conforms .float = true) {frames : List Span}
    (hframes : ∀ f ∈ frames, InRows values f) :
    ∃ results, overFrames (if maximum then .max else .min) values frames = .ok results ∧
      List.Forall₂ (fun f v => FrontBest maximum (framed values f) v ∧
        ((∃ w ∈ framed values f, w.isNull = false) →
          (Extremal maximum (framed values f) v ↔ ¬ Hidden maximum (framed values f))))
        frames results := by
  have hcolumn : ∃ type, ∀ v ∈ values, v.conforms type = true ∧ v.comparable?.isSome = true := by
    refine ⟨.float, fun v hv => ⟨hvalues v hv, ?_⟩⟩
    rcases null_or_double (hvalues v hv) with rfl | ⟨x, rfl⟩ <;> rfl
  have hfits : Fits values (if maximum then .max else .min) := by cases maximum <;> exact hcolumn
  have hfresh : .fresh (if maximum then .max else .min) = Accumulator.extreme ⟨maximum, []⟩ := by
    cases maximum <;> rfl
  rw [overFrames_eq_recompute hfits hframes, recompute]
  refine Result.exists_mapM fun f hf => ?_
  obtain ⟨v, hv, hbest⟩ := ofFrame_extreme hfresh hvalues (hframes f hf)
  have hdoubles : ∀ w ∈ framed values f, w.conforms .float = true := fun w hw =>
    hvalues w (List.mem_of_mem_drop (List.mem_of_mem_take hw))
  exact ⟨v, hv, hbest, fun hsome => hbest.extremal_iff hdoubles hsome⟩

/-- Three, what is not a number, and one. -/
def spoilt : List Value := [.float (.number 3), .float .undefined, .float (.number 1)]

/-- The minimum of all three is hidden, that of the last two is not. -/
theorem extremes_extremal_iff_spoilt :
    ((∀ v ∈ spoilt, v.conforms .float = true) ∧
      ∀ f ∈ [(⟨0, 3⟩ : Span), ⟨1, 3⟩], InRows spoilt f) ∧
    ∃ v w, overFrames .min spoilt [⟨0, 3⟩, ⟨1, 3⟩] = .ok [v, w] ∧
      ¬ Extremal false spoilt v ∧ Extremal false (spoilt.drop 1) w := by
  have hvalues : ∀ v ∈ spoilt, v.conforms .float = true := by decide
  have hframes : ∀ f ∈ [(⟨0, 3⟩ : Span), ⟨1, 3⟩], InRows spoilt f := by decide
  obtain ⟨results, hresults, hall⟩ := extremes_extremal_iff false hvalues hframes
  obtain ⟨v, others, ⟨-, hv⟩, hothers, rfl⟩ := List.forall₂_cons_left_iff.mp hall
  obtain ⟨w, nothing, ⟨-, hw⟩, hnothing, rfl⟩ := List.forall₂_cons_left_iff.mp hothers
  obtain rfl := List.forall₂_nil_left_iff.mp hnothing
  refine ⟨⟨hvalues, hframes⟩, v, w, hresults, ?_, ?_⟩
  · exact fun hextremal => (hv (by decide)).mp hextremal (by decide)
  · exact (hw (by decide)).mpr (by decide)

/-- The minimum of three, what is not a number, and one is three. -/
theorem min_past_undefined : ∃ v, overFrames .min spoilt [⟨0, 3⟩] = .ok [v] ∧
    (∃ w ∈ framed spoilt ⟨0, 3⟩, w.isNull = false) ∧ v = .float (.number 3) ∧
    ¬ Extremal false (framed spoilt ⟨0, 3⟩) v := by
  refine ⟨.float (.number 3), rfl, by decide, rfl, ?_⟩
  rintro (hnan | ⟨-, -, hreach⟩)
  · cases hnan
  · have hone := hreach (.float (.number 1)) (.tail _ (.tail _ (.head _))) rfl
    revert hone
    decide

end FrameAggregate
end OrderedRelations
