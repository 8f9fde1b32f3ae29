import Mathlib.Data.List.Infix
import OrderedRelations.Proofs.Value.Equality
import OrderedRelations.Proofs.Window.LeadingRows

/-!
# The queue of a sliding extreme

Over values that have an order, the queue holds just the entries of the window that outrank every
later one: an entry that a newcomer reaches can never become the extreme again, and no other is
dropped. So the first entry is the last of the best.
-/

namespace OrderedRelations

namespace Value

/-- Whether one value comes before another in sorted order: their comparable forms do. -/
def sortsBelow (v w : Value) : Bool :=
  match v.comparable?, w.comparable? with
  | some v, some w => v.less? w == some true
  | _, _ => false

/-- Whether one value is strictly better than another: lower for a minimum, higher for a
maximum. -/
def outranks (maximum : Bool) (v w : Value) : Bool :=
  if maximum then w.sortsBelow v else v.sortsBelow w

/-- A value that extremes can tell from others of its column: neither null nor what is not a
number, and with a comparable form. -/
structure Contends (type : ColumnType) (v : Value) : Prop where
  typed : v.conforms type = true
  number : v.isNaN = false
  comparable : v.comparable?.isSome = true
  present : v.isNull = false

/-- The rank of a value in sorted order. -/
def sortRank (v : Value) : Rank := (v.comparable?.getD null).rank

namespace Contends

variable {type : ColumnType} {u v w : Value} {maximum : Bool}

theorem exists_sortable (h : Contends type v) : ∃ v', v.comparable? = some v' ∧
    Sortable type v' ∧ v'.isNull = false ∧ v.sortRank = v'.rank := by
  obtain ⟨v', hv'⟩ := Option.isSome_iff_exists.mp h.comparable
  refine ⟨v', hv', ⟨conforms_of_comparable? hv' h.typed, isNaive_of_comparable? hv', ?_⟩, ?_, ?_⟩
  · rw [isNaN_of_comparable? hv', h.number]
  · rw [isNull_of_comparable? hv', h.present]
  · rw [sortRank, hv', Option.getD_some]

theorem sortsBelow_eq (hv : Contends type v) (hw : Contends type w) :
    v.sortsBelow w = decide (v.sortRank < w.sortRank) := by
  obtain ⟨v', hv', hsv, hnv, hrv⟩ := hv.exists_sortable
  obtain ⟨w', hw', hsw, hnw, hrw⟩ := hw.exists_sortable
  rw [sortsBelow, hv', hw', hrv, hrw]
  simp only [hsv.less?_eq hsw hnv hnw]
  cases decide (v'.rank < w'.rank) <;> rfl

theorem outranks_trans (hu : Contends type u) (hv : Contends type v) (hw : Contends type w)
    (h : u.outranks maximum v = true) (h' : v.outranks maximum w = true) :
    u.outranks maximum w = true := by
  cases maximum with
  | false =>
    simp only [outranks, Bool.false_eq_true, if_false, hu.sortsBelow_eq hv, hv.sortsBelow_eq hw,
      hu.sortsBelow_eq hw, decide_eq_true_eq] at h h' ⊢
    exact h.trans h'
  | true =>
    simp only [outranks, if_true, hv.sortsBelow_eq hu, hw.sortsBelow_eq hv, hw.sortsBelow_eq hu,
      decide_eq_true_eq] at h h' ⊢
    exact h'.trans h

/-- A value that outranks another outranks those that the other one reaches. -/
theorem outranks_of_reached (hu : Contends type u) (hv : Contends type v) (hw : Contends type w)
    (h : u.outranks maximum v = true) (h' : w.outranks maximum v = false) :
    u.outranks maximum w = true := by
  cases maximum with
  | false =>
    simp only [outranks, Bool.false_eq_true, if_false, hu.sortsBelow_eq hv, hw.sortsBelow_eq hv,
      hu.sortsBelow_eq hw, decide_eq_true_eq, decide_eq_false_iff_not, not_lt] at h h' ⊢
    exact h.trans_le h'
  | true =>
    simp only [outranks, if_true, hv.sortsBelow_eq hu, hv.sortsBelow_eq hw, hw.sortsBelow_eq hu,
      decide_eq_true_eq, decide_eq_false_iff_not, not_lt] at h h' ⊢
    exact h'.trans_lt h

theorem outranks_asymm (hu : Contends type u) (hv : Contends type v)
    (h : u.outranks maximum v = true) : v.outranks maximum u = false := by
  cases maximum with
  | false =>
    simp only [outranks, Bool.false_eq_true, if_false, hu.sortsBelow_eq hv, hv.sortsBelow_eq hu,
      decide_eq_true_eq, decide_eq_false_iff_not, not_lt] at h ⊢
    exact h.le
  | true =>
    simp only [outranks, if_true, hu.sortsBelow_eq hv, hv.sortsBelow_eq hu, decide_eq_true_eq,
      decide_eq_false_iff_not, not_lt] at h ⊢
    exact h.le

end Contends

theorem Sortable.atMost?_eq {type : ColumnType} {a b : Value} (ha : Sortable type a)
    (hb : Sortable type b) (hna : a.isNull = false) (hnb : b.isNull = false) :
    a.atMost? b = some (decide (a.rank ≤ b.rank)) := by
  have hsame : a.same b = a.sameKey b := by
    unfold sameKey
    split
    · cases ha.number
    · rfl
  rw [atMost?, ha.less?_eq hb hna hnb, hsame, ha.sameKey_eq hb hna hnb, Option.map_some,
    ← Bool.decide_or]
  simp only [le_iff_lt_or_eq]

end Value

namespace RunningExtreme

variable {type : ColumnType} {maximum : Bool}

/-- A later value overtakes those that do not outrank it. -/
theorem overtakes_eq {v w : Value} (hv : v.Contends type) (hw : w.Contends type) :
    overtakes maximum v w = .ok (!w.outranks maximum v) := by
  obtain ⟨v', hv', hsv, hnv, hrv⟩ := hv.exists_sortable
  obtain ⟨w', hw', hsw, hnw, hrw⟩ := hw.exists_sortable
  have hnot : ∀ a b : Value.Rank, decide (a ≤ b) = !decide (b < a) := fun a b => by
    rw [← decide_not, decide_eq_decide, not_lt]
  cases maximum <;>
    simp [overtakes, hv', hw', Value.outranks, hw.sortsBelow_eq hv, hv.sortsBelow_eq hw, hrv, hrw,
      hsv.atMost?_eq hsw hnv hnw, hsw.atMost?_eq hsv hnw hnv, hnot]

theorem dropOvertaken_eq {v : Value} {p : Entry → Bool} {es : List Entry}
    (h : ∀ e ∈ es, overtakes maximum v e.value = .ok (p e)) :
    dropOvertaken maximum v es = .ok (es.dropWhile p) := by
  induction es with
  | nil => rfl
  | cons e rest ih =>
    have hrest := ih fun f hf => h f (List.mem_cons_of_mem e hf)
    rw [dropOvertaken, h e List.mem_cons_self, Result.ok_bind, List.dropWhile_cons]
    cases p e with
    | false => rfl
    | true => simpa using hrest

/-- An entry whose value outranks every later one. -/
def Stands (maximum : Bool) (e : Entry) (later : List Entry) : Prop :=
  e.value.isNull = false ∧
    ∀ f ∈ later, f.value.isNull = false → e.value.outranks maximum f.value = true

instance (maximum : Bool) (e : Entry) (later : List Entry) : Decidable (Stands maximum e later) :=
  inferInstanceAs (Decidable (_ ∧ _))

/-- The entries of a window that outrank every later one. -/
def standing (maximum : Bool) : List Entry → List Entry
  | [] => []
  | e :: later =>
    if Stands maximum e later then e :: standing maximum later else standing maximum later

theorem standing_sublist (window : List Entry) : (standing maximum window).Sublist window := by
  induction window with
  | nil => exact .slnil
  | cons e later ih =>
    rw [standing]
    split
    · exact ih.cons_cons e
    · exact ih.cons e

theorem isNull_of_standing {window : List Entry} {e : Entry} (h : e ∈ standing maximum window) :
    e.value.isNull = false := by
  induction window with
  | nil => cases h
  | cons f later ih =>
    rw [standing] at h
    split at h
    · rename_i hf
      rcases List.mem_cons.mp h with rfl | h
      · exact hf.1
      · exact ih h
    · exact ih h

theorem ne_null_of_standing {window : List Entry} {e : Entry} (h : e ∈ standing maximum window) :
    e.value ≠ .null := by
  intro hnull
  have hpresent := isNull_of_standing h
  rw [hnull] at hpresent
  cases hpresent

theorem standing_pairwise (window : List Entry) : (standing maximum window).Pairwise
    fun e f => e.value.outranks maximum f.value = true := by
  induction window with
  | nil => exact .nil
  | cons e later ih =>
    rw [standing]
    split
    · rename_i he
      refine List.pairwise_cons.mpr ⟨fun f hf => ?_, ih⟩
      exact he.2 f ((standing_sublist later).subset hf) (isNull_of_standing hf)
    · exact ih

theorem stands_snoc {e f : Entry} {later : List Entry} : Stands maximum e (later ++ [f]) ↔
    Stands maximum e later ∧
      (f.value.isNull = false → e.value.outranks maximum f.value = true) := by
  simp only [Stands, List.forall_mem_append, List.forall_mem_singleton, and_assoc]

/-- A null changes nothing. -/
theorem standing_snoc_null {f : Entry} (hf : f.value.isNull = true) (window : List Entry) :
    standing maximum (window ++ [f]) = standing maximum window := by
  induction window with
  | nil => simp [standing, Stands, hf]
  | cons e later ih => simp [standing, stands_snoc, hf, ih]

/-- A value leaves those standing that outrank it, and stands behind them. -/
theorem standing_snoc {f : Entry} (hf : f.value.isNull = false) (window : List Entry) :
    standing maximum (window ++ [f]) =
      ((standing maximum window).filter fun e => e.value.outranks maximum f.value) ++ [f] := by
  induction window with
  | nil => simp [standing, Stands, hf]
  | cons e later ih =>
    by_cases hstands : Stands maximum e later
    · cases hnew : e.value.outranks maximum f.value <;>
        simp [standing, stands_snoc, hstands, hf, hnew, ih]
    · simp [standing, stands_snoc, hstands, ih]

/-- The entries that a value leaves standing stand in front of the others. -/
theorem leads_standing {window : List Entry} {v : Value} (hv : v.Contends type)
    (hwindow : ∀ e ∈ window, e.value.isNull = false → e.value.Contends type) :
    Leads (fun e => e.value.outranks maximum v) (standing maximum window) := by
  have hcontends : ∀ e ∈ standing maximum window, e.value.Contends type := fun e he =>
    hwindow e ((standing_sublist window).subset he) (isNull_of_standing he)
  refine (standing_pairwise window).imp_of_mem fun {e f} he hf hef hfv => ?_
  exact (hcontends e he).outranks_trans (hcontends f hf) hv hef hfv

/-- Entering keeps just the entries that outrank every later one. -/
theorem add_standing {window : List Entry} {f : Entry}
    (hf : f.value.isNull = false → f.value.Contends type)
    (hwindow : ∀ e ∈ window, e.value.isNull = false → e.value.Contends type) :
    add ⟨maximum, standing maximum window⟩ f.position f.value =
      .ok ⟨maximum, standing maximum (window ++ [f])⟩ := by
  cases hnull : f.value.isNull with
  | true => rw [add, if_pos hnull, standing_snoc_null hnull]
  | false =>
    have hover : ∀ e ∈ (standing maximum window).reverse,
        overtakes maximum f.value e.value = .ok (!e.value.outranks maximum f.value) := by
      intro e he
      rw [List.mem_reverse] at he
      exact overtakes_eq (hf hnull)
        (hwindow e ((standing_sublist window).subset he) (isNull_of_standing he))
    rw [add_eq_ok hnull]
    refine ⟨_, dropOvertaken_eq hover, ?_⟩
    rw [(leads_standing (hf hnull) hwindow).dropWhile_reverse, List.reverse_reverse,
      standing_snoc hnull]

/-- The first of a window takes its entry along, if it still stands. -/
theorem remove_standing {window : List Entry} {e : Entry}
    (hlater : ∀ f ∈ window, f.position ≠ e.position) :
    remove ⟨maximum, standing maximum (e :: window)⟩ e.position =
      ⟨maximum, standing maximum window⟩ := by
  rw [standing]
  split
  · simp [remove]
  · rw [remove]
    split
    · rename_i f rest hwindow
      have hwindow : standing maximum window = f :: rest := hwindow
      have hf : f ∈ standing maximum window := hwindow ▸ List.mem_cons_self
      rw [if_neg (hlater f ((standing_sublist window).subset hf))]
    · rfl

/-- The entry at a position. -/
def entryAt (values : List Value) (i : ℕ) : Entry := ⟨i, Arrangement.valueAt values i⟩

theorem getElem?_entryAt {values : List Value} {i : ℕ} (h : i < values.length) :
    values[i]? = some (entryAt values i).value := by
  simp [entryAt, Arrangement.valueAt, List.getElem?_eq_getElem h]

/-- The entries from `removed` up to, but not including, `added`. -/
def windowOf (values : List Value) (removed added : ℕ) : List Entry :=
  (List.range' removed (added - removed)).map (entryAt values)

variable {values : List Value} {removed added : ℕ}

theorem windowOf_enter (hle : removed ≤ added) : windowOf values removed (added + 1) =
    windowOf values removed added ++ [entryAt values added] := by
  rw [windowOf, Nat.sub_add_comm hle, List.range'_1_concat, List.map_append,
    Nat.add_sub_of_le hle]
  rfl

theorem windowOf_leave (hlt : removed < added) : windowOf values removed added =
    entryAt values removed :: windowOf values (removed + 1) added := by
  obtain ⟨n, rfl⟩ := Nat.exists_eq_add_of_lt hlt
  have hcount : removed + n + 1 - removed = n + 1 := by omega
  have hrest : removed + n + 1 - (removed + 1) = n := by omega
  rw [windowOf, windowOf, hcount, hrest, List.range'_succ, List.map_cons]

theorem mem_windowOf {e : Entry} : e ∈ windowOf values removed added ↔
    ∃ i : ℕ, removed ≤ i ∧ i < added ∧ entryAt values i = e := by
  simp only [windowOf, List.mem_map, List.mem_range'_1]
  constructor
  · rintro ⟨i, ⟨hle, hlt⟩, rfl⟩
    exact ⟨i, hle, by omega, rfl⟩
  · rintro ⟨i, hle, hlt, rfl⟩
    exact ⟨i, ⟨hle, by omega⟩, rfl⟩

theorem windowOf_sorted (values : List Value) (removed added : ℕ) :
    (windowOf values removed added).Pairwise fun e f => e.position < f.position := by
  rw [windowOf, List.pairwise_map]
  exact (List.pairwise_lt_range' 1).imp fun hlt => Int.ofNat_lt.mpr hlt

/-- Values of one column, nulls among them, that sorting can place. -/
def Sorts (values : List Value) : Prop :=
  ∃ type, ∀ v ∈ values, v.conforms type = true ∧ v.isNaN = false ∧ v.comparable?.isSome = true

theorem contends_entryAt (hvalues : ∀ v ∈ values, v.isNull = false → v.Contends type) (i : ℕ)
    (h : (entryAt values i).value.isNull = false) : (entryAt values i).value.Contends type := by
  refine hvalues _ ?_ h
  simp only [entryAt, Arrangement.valueAt] at h ⊢
  cases hi : values[i]? with
  | none =>
    rw [hi] at h
    cases h
  | some v => exact List.mem_of_getElem? hi

theorem contends_windowOf (hvalues : ∀ v ∈ values, v.isNull = false → v.Contends type) :
    ∀ e ∈ windowOf values removed added, e.value.isNull = false → e.value.Contends type := by
  intro e he hpresent
  obtain ⟨i, -, -, rfl⟩ := mem_windowOf.mp he
  exact contends_entryAt hvalues i hpresent

/-- What happens to a queue that slides: the next value enters, or the first one leaves. -/
inductive Turn where
  | enter
  | leave
  deriving DecidableEq

/-- Takes turns, with `removed` values gone again out of `added`. -/
def takeTurns (values : List Value) : List Turn → (added removed : ℕ) → RunningExtreme →
    Result RunningExtreme
  | [], _, _, s => .ok s
  | .enter :: rest, added, removed, s => do
    let v ← orElse .outOfRange values[added]?
    let s ← s.add added v
    takeTurns values rest (added + 1) removed s
  | .leave :: rest, added, removed, s =>
    takeTurns values rest added (removed + 1) (s.remove removed)

/-- A run in order keeps just the entries of the window that outrank every later one. -/
theorem takeTurns_standing (hvalues : ∀ v ∈ values, v.isNull = false → v.Contends type)
    {turns : List Turn}
    (hturns : ∀ t, t <+: turns → removed + t.count .leave ≤ added + t.count .enter)
    (hlength : added + turns.count .enter ≤ values.length) :
    takeTurns values turns added removed
        ⟨maximum, standing maximum (windowOf values removed added)⟩ =
      .ok ⟨maximum, standing maximum
        (windowOf values (removed + turns.count .leave) (added + turns.count .enter))⟩ := by
  induction turns generalizing added removed with
  | nil => rfl
  | cons turn rest ih =>
    have hle : removed ≤ added := by simpa using hturns [] List.nil_prefix
    have hrest : ∀ t, t <+: rest →
        removed + (turn :: t).count .leave ≤ added + (turn :: t).count .enter :=
      fun t ht => hturns (turn :: t) (List.cons_prefix_cons.mpr ⟨rfl, ht⟩)
    cases turn with
    | enter =>
      simp only [List.count_cons_self, List.count_cons_of_ne (show Turn.enter ≠ .leave by decide)]
        at hrest hlength ⊢
      have hv := getElem?_entryAt (by omega : added < values.length)
      have hadd : add ⟨maximum, standing maximum (windowOf values removed added)⟩ added
          (entryAt values added).value =
          .ok ⟨maximum, standing maximum (windowOf values removed (added + 1))⟩ := by
        rw [windowOf_enter hle]
        exact add_standing (contends_entryAt hvalues added) (contends_windowOf hvalues)
      rw [takeTurns, hv, Result.orElse_some, Result.ok_bind, hadd, Result.ok_bind,
        ih (fun t ht => by have := hrest t ht; omega) (by omega), Nat.add_right_comm, Nat.add_assoc]
    | leave =>
      simp only [List.count_cons_self, List.count_cons_of_ne (show Turn.leave ≠ .enter by decide)]
        at hrest hlength ⊢
      have hlt : removed + 1 ≤ added := by simpa using hrest [] List.nil_prefix
      have hremove : remove ⟨maximum, standing maximum (windowOf values removed added)⟩ removed =
          ⟨maximum, standing maximum (windowOf values (removed + 1) added)⟩ := by
        rw [windowOf_leave hlt]
        refine remove_standing (e := entryAt values removed) fun f hf => ?_
        obtain ⟨i, hle', -, rfl⟩ := mem_windowOf.mp hf
        simp only [entryAt, ne_eq, Int.natCast_inj]
        omega
      rw [takeTurns, hremove, ih (fun t ht => by have := hrest t ht; omega) hlength,
        Nat.add_right_comm, Nat.add_assoc]

/-- The last of the best values of a window, or null for a window of nulls. -/
inductive LastBest (maximum : Bool) (window : List Entry) : Value → Prop
  | nothing (h : ∀ e ∈ window, e.value.isNull = true) : LastBest maximum window .null
  | best {before after : List Entry} {e : Entry} (hwindow : window = before ++ e :: after)
      (hpresent : e.value.isNull = false)
      (hbefore : ∀ f ∈ before, f.value.isNull = false → f.value.outranks maximum e.value = false)
      (hafter : ∀ f ∈ after, f.value.isNull = false → e.value.outranks maximum f.value = true) :
      LastBest maximum window e.value

theorem lastBest_standing (maximum : Bool) {window : List Entry}
    (hwindow : ∀ e ∈ window, e.value.isNull = false → e.value.Contends type) :
    LastBest maximum window (extreme ⟨maximum, standing maximum window⟩) := by
  induction window with
  | nil => exact .nothing fun e he => by cases he
  | cons e later ih =>
    obtain ⟨he, hlater⟩ := List.forall_mem_cons.mp hwindow
    rw [standing]
    split
    · rename_i hstands
      exact .best (List.nil_append (e :: later)).symm hstands.1 (fun f hf => by cases hf) hstands.2
    · rename_i hfalls
      have hrest := ih hlater
      generalize extreme ⟨maximum, standing maximum later⟩ = v at hrest ⊢
      cases hrest with
      | nothing hnull =>
        refine .nothing (List.forall_mem_cons.mpr ⟨?_, hnull⟩)
        by_contra hpresent
        refine hfalls ⟨by simpa using hpresent, fun f hf hf' => ?_⟩
        rw [hnull f hf] at hf'
        cases hf'
      | @best before after f hsplit hpresent hbefore hafter =>
        have hsplit' : e :: later = (e :: before) ++ f :: after := by rw [hsplit, List.cons_append]
        refine .best hsplit' hpresent
          (List.forall_mem_cons.mpr ⟨fun hpe => ?_, hbefore⟩) hafter
        by_contra hout
        rw [Bool.not_eq_false] at hout
        subst hsplit
        have hf : f.value.Contends type := hlater f (by simp) hpresent
        refine hfalls ⟨hpe, fun g hg hpg => ?_⟩
        have hcg : g.value.Contends type := hlater g hg hpg
        rcases List.mem_append.mp hg with hg | hg
        · exact (he hpe).outranks_of_reached hf hcg hout (hbefore g hg hpg)
        · rcases List.mem_cons.mp hg with rfl | hg
          · exact hout
          · exact (he hpe).outranks_trans hf hcg hout (hafter g hg hpg)

/-- A queue that values enter in order and leave in order, none before it has entered: its entries
are those of the window that outrank every later one, so positions ascend and values get strictly
worse, and its extreme is the last of the best values of the window. -/
theorem takeTurns_spec (hsorts : Sorts values) (maximum : Bool) {turns : List Turn}
    (hturns : ∀ t, t <+: turns → t.count .leave ≤ t.count .enter)
    (hlength : turns.count .enter ≤ values.length) :
    ∃ s, takeTurns values turns 0 0 ⟨maximum, []⟩ = .ok s ∧
      s.window = standing maximum (windowOf values (turns.count .leave) (turns.count .enter)) ∧
      (s.window.Pairwise fun e f =>
        e.position < f.position ∧ e.value.outranks maximum f.value = true) ∧
      LastBest maximum (windowOf values (turns.count .leave) (turns.count .enter)) s.extreme := by
  obtain ⟨type, htype⟩ := hsorts
  have hvalues : ∀ v ∈ values, v.isNull = false → v.Contends type := fun v hv hpresent =>
    ⟨(htype v hv).1, (htype v hv).2.1, (htype v hv).2.2, hpresent⟩
  have hrun : takeTurns values turns 0 0 ⟨maximum, standing maximum (windowOf values 0 0)⟩ = _ :=
    takeTurns_standing hvalues (by simpa using hturns) (by simpa using hlength)
  rw [Nat.zero_add, Nat.zero_add] at hrun
  refine ⟨_, hrun, rfl, ?_, lastBest_standing maximum (contends_windowOf hvalues)⟩
  exact ((windowOf_sorted _ _ _).sublist (standing_sublist _)).and (standing_pairwise _)

/-- A departure on the hour, naive or with an offset from UTC in seconds. -/
def departureAt (hour : ℕ) (offset : Option ℤ) (h : hour * 3600000000 < dayMicroseconds) : Value :=
  .datetime ⟨⟨2025, 5, 17, by decide⟩, hour * 3600000000, h, offset⟩

/-- Six, then six once more as an hour east of UTC has it, with a gap between them. -/
def departures : List Value :=
  [departureAt 6 none (by decide), .null, departureAt 7 (some 3600000000) (by decide),
    departureAt 8 (some 3600000000) (by decide)]

/-- The first departure at six is gone from the queue before it leaves the window. -/
theorem takeTurns_spec_departures :
    let turns : List Turn := [.enter, .enter, .enter, .enter, .leave]
    (Sorts departures ∧ (∀ t, t <+: turns → t.count .leave ≤ t.count .enter) ∧
      turns.count .enter ≤ departures.length) ∧
    ∃ s, takeTurns departures turns 0 0 ⟨false, []⟩ = .ok s ∧
      s.window.map Entry.position = [2, 3] ∧
      LastBest false (windowOf departures 1 4) s.extreme := by
  intro turns
  have hsorts : Sorts departures := ⟨.datetime, by decide⟩
  have hturns : ∀ t, t <+: turns → t.count .leave ≤ t.count .enter := by
    have hinits : ∀ t ∈ turns.inits, t.count .leave ≤ t.count .enter := by decide
    exact fun t ht => hinits t ((List.mem_inits t turns).mpr ht)
  have hlength : turns.count .enter ≤ departures.length := by decide
  obtain ⟨s, hrun, hwindow, -, hbest⟩ := takeTurns_spec hsorts false hturns hlength
  have hpositions : (standing false (windowOf departures 1 4)).map Entry.position = [2, 3] := by
    decide
  exact ⟨⟨hsorts, hturns, hlength⟩, s, hrun, by rw [hwindow]; exact hpositions, hbest⟩

end RunningExtreme
end OrderedRelations
