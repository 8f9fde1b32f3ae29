import OrderedRelations.Proofs.Value.Equality
import OrderedRelations.Proofs.Window.CoordinateOrder
import OrderedRelations.Proofs.Window.PeerRuns
import OrderedRelations.Window.Span

/-!
# Peers as maximal runs

Keys in any order, sorted or not, fall into maximal runs of keys that sorting does not tell apart.
Each position has the span of its run, so the spans lie side by side and cover all positions.
-/

namespace OrderedRelations

/-- A value that an order key may hold: a cell of some column, unless it is not a number. -/
def Value.Orderable (v : Value) : Prop := (∃ type, v.conforms type = true) ∧ v.isNaN = false

/-- Values that sorting does not tell apart: moments with one reading in UTC, and other values that
are equal, nulls among them. -/
inductive Value.Peer : Value → Value → Prop
  | moments {s t u : DateTime} (hs : s.UtcReading u) (ht : t.UtcReading u) :
    Peer (.datetime s) (.datetime t)
  | others {v w : Value} (hv : ∀ t, v ≠ .datetime t) (hw : ∀ t, w ≠ .datetime t)
    (h : v.same w = true) : Peer v w

namespace Value

/-- A value in comparable form is the reading in UTC of a moment, or any other value itself. -/
theorem comparable?_cases {v p : Value} (h : v.comparable? = some p) :
    (∃ t u, t.UtcReading u ∧ v = .datetime t ∧ p = .datetime u) ∨ (∀ t, v ≠ .datetime t) ∧ p = v := by
  cases v with
  | datetime t =>
    obtain ⟨u, hu, rfl⟩ := Option.map_eq_some_iff.mp h
    exact .inl ⟨t, u, DateTime.utc?_eq_some_iff.mp hu, rfl, rfl⟩
  | _ =>
    cases h
    exact .inr ⟨by simp, rfl⟩

/-- Only moments are equal to moments. -/
theorem datetime_of_same {u : DateTime} {w : Value} (h : (datetime u).same w = true) :
    ∃ t, w = .datetime t := by
  cases w with
  | datetime t => exact ⟨t, rfl⟩
  | _ => simp [same, quantity?] at h

theorem same_naive_iff {u v : DateTime} (hu : u.offset = none) (hv : v.offset = none) :
    (datetime u).same (.datetime v) = true ↔ u = v := by
  cases u
  cases v
  simp_all [same, DateTime.same, DateTime.isAware]

/-- Comparable forms are the same key where sorting does not tell the values apart. -/
theorem sameKey_iff_peer {v w p q : Value} (hv : v.isNaN = false) (hp : v.comparable? = some p)
    (hq : w.comparable? = some q) : p.sameKey q = true ↔ Peer v w := by
  have hnumber : p.sameKey q = true ↔ p.same q = true := by
    rw [sameKey_iff]
    refine or_iff_right ?_
    rintro ⟨payload, rfl, -⟩
    rw [← isNaN_of_comparable? hp] at hv
    cases hv
  rw [hnumber]
  rcases comparable?_cases hp with ⟨s, u, hs, rfl, rfl⟩ | ⟨hv, rfl⟩ <;>
    rcases comparable?_cases hq with ⟨t, u', ht, rfl, rfl⟩ | ⟨hw, rfl⟩
  · rw [same_naive_iff hs.1 ht.1]
    constructor
    · rintro rfl
      exact .moments hs ht
    · intro h
      cases h with
      | moments hs' ht' => exact (hs.unique hs').trans (ht'.unique ht)
      | others hv _ _ => exact absurd rfl (hv s)
  · constructor
    · intro h
      obtain ⟨t, rfl⟩ := datetime_of_same h
      exact absurd rfl (hw t)
    · intro h
      cases h with
      | moments _ ht => exact absurd rfl (hw _)
      | others hv _ _ => exact absurd rfl (hv s)
  · constructor
    · intro h
      obtain ⟨s, rfl⟩ := datetime_of_same (same_symm h)
      exact absurd rfl (hv s)
    · intro h
      cases h with
      | moments hs _ => exact absurd rfl (hv _)
      | others _ hw _ => exact absurd rfl (hw t)
  · refine ⟨.others hv hw, fun h => ?_⟩
    cases h with
    | moments hs _ => exact absurd rfl (hv _)
    | others _ _ h => exact h

/-- Comparable forms of keys are the same where their values are peers place by place. -/
theorem sameKeys_iff_peers {a b : List Value} (ha : ∀ v ∈ a, v.isNaN = false)
    (hac : ∀ v ∈ a, v.comparable?.isSome = true) (hbc : ∀ w ∈ b, w.comparable?.isSome = true) :
    sameKeys (a.map fun v => v.comparable?.getD .null) (b.map fun w => w.comparable?.getD .null) =
      true ↔ List.Forall₂ Peer a b := by
  induction a generalizing b with
  | nil => cases b <;> simp [sameKeys]
  | cons v a ih =>
    cases b with
    | nil => simp [sameKeys]
    | cons w b =>
      rw [List.forall_mem_cons] at ha hac hbc
      obtain ⟨p, hp⟩ := Option.isSome_iff_exists.mp hac.1
      obtain ⟨q, hq⟩ := Option.isSome_iff_exists.mp hbc.1
      rw [List.map_cons, List.map_cons, sameKeys, Bool.and_eq_true, ih ha.2 hac.2 hbc.2, hp, hq,
        Option.getD_some, Option.getD_some, sameKey_iff_peer ha.1 hp hq, List.forall₂_cons]

end Value

/-- The positions that a span covers. -/
def Span.Holds (s : Span) (i : ℕ) : Prop := s.first ≤ i ∧ (i : ℤ) < s.stop

namespace Peers

/-- One span for each position, so that the spans lie side by side, each shared by all positions in
it, and cut the keys where neighbours are not alike and nowhere else. -/
structure CutsRuns {α : Type} (alike : α → α → Prop) (keys : List α) (spans : List Span) :
    Prop where
  length_eq : spans.length = keys.length
  within : ∀ s ∈ spans, 0 ≤ s.first ∧ s.stop ≤ keys.length
  own : ∀ (i : ℕ) (s : Span), spans[i]? = some s → s.Holds i
  shared : ∀ s ∈ spans, ∀ i : ℕ, s.Holds i → spans[i]? = some s
  tiles : ∀ i < keys.length, ∃! s, s ∈ spans ∧ s.Holds i
  alike_inside : ∀ s ∈ spans, ∀ (i j : ℕ) (a b : α), s.Holds i → s.Holds j →
    keys[i]? = some a → keys[j]? = some b → alike a b
  differ_across : ∀ s ∈ spans, ∀ (i : ℕ) (a b : α), (i + 1 : ℕ) = s.first ∨ (i + 1 : ℕ) = s.stop →
    keys[i]? = some a → keys[i + 1]? = some b → ¬ alike a b

theorem CutsRuns.of_map {α β : Type} {f : α → β} {alike : α → α → Prop} {alike' : β → β → Prop}
    {keys : List α} {spans : List Span} (h : CutsRuns alike' (keys.map f) spans)
    (halike : ∀ a ∈ keys, ∀ b ∈ keys, alike' (f a) (f b) ↔ alike a b) :
    CutsRuns alike keys spans := by
  have hkey : ∀ {i : ℕ} {a : α}, keys[i]? = some a → (keys.map f)[i]? = some (f a) := by
    intro i a ha
    rw [List.getElem?_map, ha, Option.map_some]
  have hlength : (keys.map f).length = keys.length := List.length_map f
  refine ⟨hlength ▸ h.length_eq, hlength ▸ h.within, h.own, h.shared, hlength ▸ h.tiles, ?_, ?_⟩
  · intro s hs i j a b hi hj ha hb
    exact (halike a (List.mem_of_getElem? ha) b (List.mem_of_getElem? hb)).mp
      (h.alike_inside s hs i j _ _ hi hj (hkey ha) (hkey hb))
  · intro s hs i a b hborder ha hb hab
    exact h.differ_across s hs i _ _ hborder (hkey ha) (hkey hb)
      ((halike a (List.mem_of_getElem? ha) b (List.mem_of_getElem? hb)).mpr hab)

section Runs

variable {front block back rest : List (List Value)} {first next : List Value}

/-- A run behind the keys in front of it, which may go on: its keys are the same, and the key before
it is another one. -/
structure OpenRun (front block : List (List Value)) : Prop where
  same : ∀ a ∈ block, ∀ b ∈ block, Value.sameKeys a b = true
  front_differs : ∀ a ∈ front.getLast?, ∀ b ∈ block, Value.sameKeys a b = false

/-- A run between other keys that does not go on: the key behind it is another one as well. -/
structure MaximalRun (front block back : List (List Value)) : Prop extends OpenRun front block where
  back_differs : ∀ a ∈ block, ∀ b ∈ back.head?, Value.sameKeys a b = false

/-- A key that differs from one key of a run differs from all of them. -/
theorem OpenRun.differs (h : OpenRun front block) (hfirst : first ∈ block)
    (hnext : Value.sameKeys next first = false) : ∀ a ∈ block, Value.sameKeys a next = false := by
  intro a ha
  rw [Bool.eq_false_iff] at hnext ⊢
  exact fun hsame => hnext (Value.sameKeys_trans (Value.sameKeys_symm hsame) (h.same a ha first hfirst))

/-- A key that is the same as one key of a run continues it. -/
theorem OpenRun.push (h : OpenRun front block) (hfirst : first ∈ block)
    (hnext : Value.sameKeys next first = true) : OpenRun front (block ++ [next]) := by
  have hall : ∀ a ∈ block ++ [next], Value.sameKeys a first = true := by
    intro a ha
    rcases List.mem_append.mp ha with ha | ha
    · exact h.same a ha first hfirst
    · rwa [List.mem_singleton.mp ha]
  constructor
  · exact fun a ha b hb => Value.sameKeys_trans (hall a ha) (Value.sameKeys_symm (hall b hb))
  · intro a ha b hb
    have hdiffers := h.front_differs a ha first hfirst
    rw [Bool.eq_false_iff] at hdiffers ⊢
    exact fun hsame => hdiffers (Value.sameKeys_trans hsame (hall b hb))

/-- Another key ends a run. -/
theorem OpenRun.close (h : OpenRun front block) (hfirst : first ∈ block)
    (hnext : Value.sameKeys next first = false) : MaximalRun front block (next :: rest) := by
  refine ⟨h, fun a ha b hb => ?_⟩
  obtain rfl : next = b := by simpa using hb
  exact h.differs hfirst hnext a ha

/-- Another key begins the next run. -/
theorem OpenRun.follow (h : OpenRun front block) (hfirst : first ∈ block)
    (hnext : Value.sameKeys next first = false) (hself : Value.sameKeys next next = true) :
    OpenRun (front ++ block) [next] := by
  have hne : block ≠ [] := List.ne_nil_of_mem hfirst
  constructor
  · simpa using hself
  · intro a ha b hb
    rw [List.mem_singleton.mp hb]
    rw [List.getLast?_append_of_ne_nil front hne] at ha
    exact h.differs hfirst hnext a (List.mem_of_mem_getLast? ha)

/-- Where a run may still go on, each position from its start on comes to lie in a maximal run and
gets the span of that run. -/
theorem exists_run_from (hopen : OpenRun front block) (hfirst : first ∈ block)
    (hself : ∀ key ∈ rest, Value.sameKeys key key = true) {i : ℕ}
    (hi : i < block.length + rest.length) :
    ∃ before run back, front ++ block ++ rest = before ++ run ++ back ∧
      MaximalRun before run back ∧ front.length ≤ before.length ∧
      before.length ≤ front.length + i ∧ front.length + i < before.length + run.length ∧
      ∀ j, before.length ≤ front.length + j → front.length + j < before.length + run.length →
        (spansOfRuns front.length (runLengthsFrom first block.length rest))[j]? =
          some ⟨before.length, (before.length + run.length : ℕ)⟩ := by
  induction rest generalizing front block first i with
  | nil =>
    refine ⟨front, block, [], rfl, ⟨hopen, by simp⟩, Nat.le_refl _, by omega, by simpa using hi, ?_⟩
    intro j _ hj
    simp only [runLengthsFrom, spansOfRuns, List.append_nil]
    exact List.getElem?_replicate_of_lt (by omega)
  | cons next rest ih =>
    rw [List.forall_mem_cons] at hself
    rw [runLengthsFrom]
    split
    · rename_i hnext
      have hlength : (block ++ [next]).length = block.length + 1 := by simp
      have hkeys : front ++ block ++ next :: rest = front ++ (block ++ [next]) ++ rest := by simp
      rw [hkeys, ← hlength]
      exact ih (hopen.push hfirst hnext) (List.mem_append_left _ hfirst) hself.2
        (by simp only [List.length_cons] at hi; omega)
    · rename_i hnext
      rw [Bool.not_eq_true] at hnext
      rw [spansOfRuns]
      by_cases hin : i < block.length
      · refine ⟨front, block, next :: rest, rfl, hopen.close hfirst hnext, Nat.le_refl _, by omega,
          by omega, ?_⟩
        intro j _ hj
        rw [List.getElem?_append_left (by simp; omega)]
        exact List.getElem?_replicate_of_lt (by omega)
      · have hlength : (front ++ block).length = front.length + block.length := List.length_append
        obtain ⟨before, run, back, hkeys, hrun, hbehind, hstart, hstop, hspans⟩ :=
          ih (hopen.follow hfirst hnext hself.1) (List.mem_singleton_self next) hself.2
            (i := i - block.length) (by simp only [List.length_cons] at hi ⊢; omega)
        rw [hlength] at hbehind hstart hstop hspans
        refine ⟨before, run, back, by rw [← hkeys]; simp, hrun, by omega, by omega, by omega, ?_⟩
        intro j hj hj'
        rw [List.getElem?_append_right (by simp; omega), List.length_replicate]
        exact hspans (j - block.length) (by omega) (by omega)

/-- Each position lies in a maximal run, and all positions of this run have its span. -/
theorem exists_run {keys : List (List Value)} (hself : ∀ key ∈ keys, Value.sameKeys key key = true)
    {i : ℕ} (hi : i < keys.length) :
    ∃ front block back, keys = front ++ block ++ back ∧ MaximalRun front block back ∧
      front.length ≤ i ∧ i < front.length + block.length ∧
      ∀ j, front.length ≤ j → j < front.length + block.length →
        (spans keys)[j]? = some ⟨front.length, (front.length + block.length : ℕ)⟩ := by
  cases keys with
  | nil => cases hi
  | cons key rest =>
    rw [List.forall_mem_cons] at hself
    have hopen : OpenRun [] [key] := ⟨by simpa using hself.1, by simp⟩
    obtain ⟨front, block, back, hkeys, hrun, -, hstart, hstop, hspans⟩ :=
      exists_run_from hopen (List.mem_singleton_self key) hself.2 (i := i)
        (by simpa [Nat.add_comm] using hi)
    simp only [List.length_nil, Nat.zero_add] at hstart hstop hspans
    exact ⟨front, block, back, hkeys, hrun, hstart, hstop, hspans⟩

/-- Each span is that of a maximal run, whose positions all have it. -/
theorem exists_run_of_mem {keys : List (List Value)}
    (hself : ∀ key ∈ keys, Value.sameKeys key key = true) {s : Span} (hs : s ∈ spans keys) :
    ∃ front block back, keys = front ++ block ++ back ∧ MaximalRun front block back ∧
      s = ⟨front.length, (front.length + block.length : ℕ)⟩ ∧
      ∀ i : ℕ, s.Holds i → (spans keys)[i]? = some s := by
  obtain ⟨i, hi, rfl⟩ := List.getElem_of_mem hs
  obtain ⟨front, block, back, hkeys, hrun, hstart, hstop, hspans⟩ :=
    exists_run hself (length_spans keys ▸ hi)
  obtain ⟨_, hspan⟩ := List.getElem?_eq_some_iff.mp (hspans i hstart hstop)
  refine ⟨front, block, back, hkeys, hrun, hspan, fun j hj => ?_⟩
  rw [hspan] at hj ⊢
  simp only [Span.Holds] at hj
  exact hspans j (by omega) (by omega)

theorem mem_block {front block back : List (List Value)} {i : ℕ} {a : List Value}
    (hi : front.length ≤ i) (hi' : i < front.length + block.length)
    (ha : (front ++ block ++ back)[i]? = some a) : a ∈ block := by
  rw [List.append_assoc, List.getElem?_append_right hi, List.getElem?_append_left (by omega)] at ha
  exact List.mem_of_getElem? ha

/-- The spans of peers cut keys into maximal runs, in whatever order the keys stand. -/
theorem spans_cutsRuns {keys : List (List Value)}
    (hself : ∀ key ∈ keys, Value.sameKeys key key = true) :
    CutsRuns (fun a b => Value.sameKeys a b = true) keys (spans keys) := by
  have hlength := length_spans keys
  have hown : ∀ (i : ℕ) (s : Span), (spans keys)[i]? = some s → s.Holds i := by
    intro i s hs
    obtain ⟨hi, -⟩ := List.getElem?_eq_some_iff.mp hs
    obtain ⟨front, block, back, -, -, hstart, hstop, hspans⟩ := exists_run hself (hlength ▸ hi)
    cases hs.symm.trans (hspans i hstart hstop)
    simp only [Span.Holds]
    omega
  have hshared : ∀ s ∈ spans keys, ∀ i : ℕ, s.Holds i → (spans keys)[i]? = some s := by
    intro s hs
    obtain ⟨-, -, -, -, -, -, hspans⟩ := exists_run_of_mem hself hs
    exact hspans
  refine ⟨hlength, ?_, hown, hshared, ?_, ?_, ?_⟩
  · intro s hs
    obtain ⟨front, block, back, hkeys, -, rfl, -⟩ := exists_run_of_mem hself hs
    rw [hkeys]
    simp only [List.length_append]
    omega
  · intro i hi
    have hi' : i < (spans keys).length := by omega
    have hat : (spans keys)[i]? = some (spans keys)[i] := List.getElem?_eq_getElem hi'
    refine ⟨_, ⟨List.getElem_mem hi', hown i _ hat⟩, ?_⟩
    rintro s ⟨hs, hholds⟩
    exact Option.some.inj ((hshared s hs i hholds).symm.trans hat)
  · intro s hs i j a b hi hj ha hb
    obtain ⟨front, block, back, rfl, hrun, rfl, -⟩ := exists_run_of_mem hself hs
    simp only [Span.Holds] at hi hj
    exact hrun.same a (mem_block (by omega) (by omega) ha) b (mem_block (by omega) (by omega) hb)
  · intro s hs i a b hborder ha hb
    obtain ⟨front, block, back, rfl, hrun, rfl, hspans⟩ := exists_run_of_mem hself hs
    have hpos : 0 < block.length := by
      obtain ⟨j, hj⟩ := List.mem_iff_getElem?.mp hs
      have hholds := hown j _ hj
      simp only [Span.Holds] at hholds
      omega
    rw [Bool.not_eq_true]
    dsimp only at hborder
    rcases hborder with hborder | hborder
    · have hlast : front.getLast? = some a := by
        rw [List.append_assoc, List.getElem?_append_left (by omega)] at ha
        rw [List.getLast?_eq_getElem?, ← ha]
        congr 1
        omega
      exact hrun.front_differs a hlast b (mem_block (by omega) (by omega) hb)
    · have hhead : back.head? = some b := by
        rw [List.getElem?_append_right (by simp only [List.length_append]; omega)] at hb
        rw [List.head?_eq_getElem?, ← hb]
        congr 1
        simp only [List.length_append]
        omega
      exact hrun.back_differs a (mem_block (by omega) (by omega) ha) b hhead

end Runs

/-- Keys that an order can hold, whichever and in whatever order they stand, have peers unless some
moment among them has no reading in UTC. Then each position has one span and lies in it, the spans
lie side by side from the first position to the last, each shared by all its positions, and they are
the maximal runs: keys inside a span are not told apart by sorting, those at its borders are. -/
theorem bounds_cut_runs (keys : List (List Value)) (hkeys : ∀ key ∈ keys, ∀ v ∈ key, v.Orderable) :
    ((∀ key ∈ keys, ∀ t, .datetime t ∈ key → ∃ u, t.UtcReading u) →
      ∃ spans, bounds keys = .ok spans ∧ CutsRuns (List.Forall₂ Value.Peer) keys spans) ∧
    ((∃ key ∈ keys, ∃ t, .datetime t ∈ key ∧ ¬ ∃ u, t.UtcReading u) →
      bounds keys = .error .overflow) := by
  constructor
  · intro hreadings
    have hc : ∀ key ∈ keys, ∀ v ∈ key, v.comparable?.isSome = true := by
      intro key hkey v hv
      cases v with
      | datetime t =>
        obtain ⟨u, hu⟩ := hreadings key hkey t hv
        rw [Value.comparable?_of_utcReading hu, Option.isSome_some]
      | _ => rfl
    refine ⟨_, bounds_eq_spans hc, CutsRuns.of_map (spans_cutsRuns ?_) fun a ha b hb => ?_⟩
    · intro form hform
      obtain ⟨key, hkey, rfl⟩ := List.mem_map.mp hform
      refine Value.sameKeys_self fun p hp => ?_
      obtain ⟨v, hv, rfl⟩ := List.mem_map.mp hp
      obtain ⟨w, hw⟩ := Option.isSome_iff_exists.mp (hc key hkey v hv)
      obtain ⟨⟨type, htype⟩, -⟩ := hkeys key hkey v hv
      rw [hw, Option.getD_some]
      exact Value.sameKey_self (Value.conforms_of_comparable? hw htype)
    · exact Value.sameKeys_iff_peers (fun v hv => (hkeys a ha v hv).2) (hc a ha) (hc b hb)
  · rintro ⟨key, hkey, t, ht, hnone⟩
    exact bounds_eq_overflow ⟨key, hkey, _, ht, Value.comparable?_of_no_utcReading hnone⟩

/-- What two posts logged, out of order: the gate one moment at two offsets from UTC, then nothing, and
the same moment again behind what the yard did not log. -/
def logged : List (List Value) :=
  [[.text "gate", .datetime Value.lateEvening], [.text "gate", .datetime Value.earlyMorning],
    [.text "gate", .null], [.text "yard", .null], [.text "yard", .null],
    [.text "gate", .datetime Value.earlyMorning]]

theorem bounds_cut_runs_logged :
    (∀ key ∈ logged, ∀ v ∈ key, v.Orderable) ∧
    (∀ key ∈ logged, ∀ t, .datetime t ∈ key → ∃ u, t.UtcReading u) ∧
    bounds logged = .ok [⟨0, 2⟩, ⟨0, 2⟩, ⟨2, 3⟩, ⟨3, 5⟩, ⟨3, 5⟩, ⟨5, 6⟩] ∧
    CutsRuns (List.Forall₂ Value.Peer) logged [⟨0, 2⟩, ⟨0, 2⟩, ⟨2, 3⟩, ⟨3, 5⟩, ⟨3, 5⟩, ⟨5, 6⟩] := by
  have hkeys : ∀ key ∈ logged, ∀ v ∈ key, v.Orderable := by
    simp [logged, Value.Orderable, Value.conforms, Value.isNaN]
    exact ⟨.text⟩
  have hevening : Value.lateEvening.UtcReading Value.earlyMorning :=
    DateTime.utcReading_iff.mpr ⟨rfl, by decide⟩
  have hmorning : Value.earlyMorning.UtcReading Value.earlyMorning :=
    DateTime.utcReading_iff.mpr ⟨rfl, by decide⟩
  have hreadings : ∀ key ∈ logged, ∀ t, .datetime t ∈ key → ∃ u, t.UtcReading u := by
    have hcases : ∀ key ∈ logged, ∀ t, Value.datetime t ∈ key →
        t = Value.lateEvening ∨ t = Value.earlyMorning := by
      simp [logged]
    intro key hkey t ht
    rcases hcases key hkey t ht with rfl | rfl
    · exact ⟨_, hevening⟩
    · exact ⟨_, hmorning⟩
  have hbounds : bounds logged = .ok [⟨0, 2⟩, ⟨0, 2⟩, ⟨2, 3⟩, ⟨3, 5⟩, ⟨3, 5⟩, ⟨5, 6⟩] := rfl
  obtain ⟨spans, hspans, hcut⟩ := (bounds_cut_runs logged hkeys).1 hreadings
  cases hbounds.symm.trans hspans
  exact ⟨hkeys, hreadings, hbounds, hcut⟩

/-- The first hour of the calendar, an hour ahead of UTC. -/
def firstHour : DateTime := ⟨⟨1, 1, 1, by decide⟩, 0, by decide, some 3600000000⟩

/-- A single key has no peers where its moment leaves the calendar in UTC. -/
theorem bounds_firstHour : (Value.datetime firstHour).Orderable ∧
    bounds [[.datetime firstHour]] = .error .overflow :=
  ⟨⟨⟨.datetime, rfl⟩, rfl⟩, rfl⟩

end Peers
end OrderedRelations
