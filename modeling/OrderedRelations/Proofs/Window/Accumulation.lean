import Mathlib.Algebra.Field.Rat
import Mathlib.Tactic.Ring
import OrderedRelations.Proofs.Result
import OrderedRelations.Proofs.Value.Order
import OrderedRelations.Window.Accumulator

/-!
# Entering and leaving

A value that leaves an accumulator undoes its own entry and does not disturb any other: whether
it leaves before or after another value enters makes no difference, for exact sums as for the
queue of extremes.
-/

namespace OrderedRelations

namespace RunningSum

/-- Two sums taken together. -/
def plus (s t : RunningSum) : RunningSum :=
  ⟨s.total + t.total, s.values + t.values, s.floats + t.floats, s.nans + t.nans,
    s.positives + t.positives, s.negatives + t.negatives⟩

/-- What a double adds to a sum. -/
def floatShare (sign : ℤ) : Binary64 → RunningSum
  | .nan _ => ⟨0, sign, sign, sign, 0, 0⟩
  | .infinity false => ⟨0, sign, sign, 0, sign, 0⟩
  | .infinity true => ⟨0, sign, sign, 0, 0, sign⟩
  | .negativeZero => ⟨0, sign, sign, 0, 0, 0⟩
  | .number q => ⟨mkRat sign 1 * q, sign, sign, 0, 0, 0⟩

/-- What a value adds to a sum with the sign 1, and takes from it with the sign -1. -/
def share? (sign : ℤ) : Value → Option RunningSum
  | .null => some .empty
  | .bool b => some ⟨mkRat (sign * if b then 1 else 0) 1, sign, 0, 0, 0, 0⟩
  | .int n => some ⟨mkRat (sign * n) 1, sign, 0, 0, 0, 0⟩
  | .float x => some (floatShare sign x)
  | _ => none

theorem apply_eq (s : RunningSum) (sign : ℤ) (v : Value) :
    s.apply sign v = orElse .mistyped ((share? sign v).map s.plus) := by
  cases v with
  | float x =>
    cases x with
    | infinity negative => cases negative <;> simp [apply, applyFloat, share?, floatShare, plus]
    | _ => simp [apply, applyFloat, share?, floatShare, plus]
  | _ => simp [apply, share?, plus, empty]

theorem apply_eq_ok {s t : RunningSum} {sign : ℤ} {v : Value} :
    s.apply sign v = .ok t ↔ ∃ share, share? sign v = some share ∧ s.plus share = t := by
  rw [apply_eq, Result.orElse_eq_ok, Option.map_eq_some_iff]

theorem plus_right_comm (s t u : RunningSum) : (s.plus t).plus u = (s.plus u).plus t := by
  simp only [plus, mk.injEq]
  refine ⟨?_, ?_, ?_, ?_, ?_, ?_⟩ <;> ring

/-- Leaving takes away what entering added. -/
theorem plus_share_cancel {s t u : RunningSum} {v : Value} (ht : share? 1 v = some t)
    (hu : share? (-1) v = some u) : (s.plus t).plus u = s := by
  have hcancel : ∀ n : ℤ, mkRat n 1 + mkRat (-n) 1 = 0 := by
    intro n
    simp [Rat.mkRat_eq_div]
  cases v with
  | float x =>
    cases x with
    | infinity negative =>
      cases negative <;> cases ht <;> cases hu <;> simp [plus, floatShare]
    | number q =>
      cases ht
      cases hu
      have hq : s.total + mkRat 1 1 * q + mkRat (-1) 1 * q = s.total := by
        rw [Rat.add_assoc, ← Rat.add_mul, hcancel]
        simp
      simp [plus, floatShare, hq]
    | _ => cases ht; cases hu; simp [plus, floatShare]
  | null => cases ht; cases hu; simp [plus, empty]
  | bool b =>
    have hb := hcancel 1
    cases ht
    cases hu
    cases b <;> simp [plus, Rat.add_assoc, hb]
  | int n => cases ht; cases hu; simp [plus, Rat.add_assoc, hcancel]
  | _ => cases ht

/-- Entering and leaving commute. -/
theorem apply_comm {s s' s'' : RunningSum} {m n : ℤ} {v w : Value} (hw : s.apply m w = .ok s')
    (hv : s.apply n v = .ok s'') : ∃ t, s''.apply m w = .ok t ∧ s'.apply n v = .ok t := by
  obtain ⟨t, ht, rfl⟩ := apply_eq_ok.mp hw
  obtain ⟨u, hu, rfl⟩ := apply_eq_ok.mp hv
  refine ⟨(s.plus t).plus u, ?_, ?_⟩
  · simp [apply_eq, ht, plus_right_comm s u t]
  · simp [apply_eq, hu]

theorem apply_cancel {s s' : RunningSum} {v : Value} (h : s.apply 1 v = .ok s') :
    s'.apply (-1) v = .ok s := by
  obtain ⟨t, ht, rfl⟩ := apply_eq_ok.mp h
  obtain ⟨u, hu⟩ : ∃ u, share? (-1) v = some u := by
    cases v <;> first | exact ⟨_, rfl⟩ | cases ht
  simp [apply_eq, hu, plus_share_cancel ht hu]

end RunningSum

namespace RunningExtreme

/-- Dropping from the back stops before the first entry, or reaches it with nothing left. -/
theorem dropOvertaken_append {maximum : Bool} {v : Value} {e : Entry} {es kept : List Entry}
    (h : dropOvertaken maximum v (es ++ [e]) = .ok kept) :
    ∃ rest, dropOvertaken maximum v es = .ok rest ∧
      (kept = rest ++ [e] ∨ rest = [] ∧ kept = []) := by
  induction es with
  | nil =>
    refine ⟨[], rfl, ?_⟩
    simp only [List.nil_append, dropOvertaken, Result.bind_eq_ok] at h
    obtain ⟨b, -, hb⟩ := h
    cases b
    · exact .inl (by simpa using hb.symm)
    · exact .inr ⟨rfl, by simpa using hb.symm⟩
  | cons f es ih =>
    simp only [List.cons_append, dropOvertaken, Result.bind_eq_ok] at h
    obtain ⟨b, hover, hb⟩ := h
    cases b
    · refine ⟨f :: es, by simp [dropOvertaken, hover], .inl ?_⟩
      simpa using hb.symm
    · obtain ⟨rest, hrest, hkept⟩ := ih (by simpa using hb)
      exact ⟨rest, by simp [dropOvertaken, hover, hrest], hkept⟩

theorem add_eq_ok {s s' : RunningExtreme} {q : ℤ} {w : Value} (hw : w.isNull = false) :
    s.add q w = .ok s' ↔ ∃ kept, dropOvertaken s.maximum w s.window.reverse = .ok kept ∧
      s' = ⟨s.maximum, kept.reverse ++ [⟨q, w⟩]⟩ := by
  simp only [add, hw, Bool.false_eq_true, if_false, Result.bind_eq_ok, Result.pure_eq_ok,
    Except.ok.injEq, List.reverse_cons]
  exact exists_congr fun kept => and_congr_right fun _ => eq_comm

/-- An entry leaves alike before and after a later value enters. -/
theorem remove_add {s s' : RunningExtreme} {p q : ℤ} (hpq : q ≠ p) {w : Value}
    (h : s.add q w = .ok s') : (s.remove p).add q w = .ok (s'.remove p) := by
  cases hnull : w.isNull with
  | true =>
    simp only [add, hnull, if_true] at h ⊢
    cases h
    rfl
  | false =>
    obtain ⟨maximum, window⟩ := s
    obtain ⟨kept, hkept, rfl⟩ := (add_eq_ok hnull).mp h
    rw [add_eq_ok hnull]
    cases window with
    | nil =>
      cases hkept
      exact ⟨[], rfl, by simp [remove, hpq]⟩
    | cons e rest =>
      rw [List.reverse_cons] at hkept
      obtain ⟨later, hlater, hcases⟩ := dropOvertaken_append hkept
      by_cases he : e.position = p
      · refine ⟨later, by simpa [remove, he] using hlater, ?_⟩
        rcases hcases with rfl | ⟨rfl, rfl⟩
        · simp [remove, he]
        · simp [remove, he, hpq]
      · refine ⟨kept, by simpa [remove, he] using hkept, ?_⟩
        rcases hcases with rfl | ⟨rfl, rfl⟩
        · simp [remove, he]
        · simp [remove, he, hpq]

end RunningExtreme

namespace Accumulator

/-- A value leaves alike before and after another one enters. -/
theorem remove_add {acc acc' acc'' : Accumulator} {p q : ℤ} (hpq : q ≠ p) {v w : Value}
    (hadd : acc.add q w = .ok acc') (hremove : acc.remove p v = .ok acc'') :
    ∃ final, acc''.add q w = .ok final ∧ acc'.remove p v = .ok final := by
  cases acc with
  | sum s =>
    obtain ⟨t, ht, rfl⟩ := Result.map_eq_ok.mp hadd
    obtain ⟨u, hu, rfl⟩ := Result.map_eq_ok.mp hremove
    obtain ⟨s', hs, hs'⟩ := RunningSum.apply_comm ht hu
    exact ⟨sum s', by simp [add, hs], by simp [remove, hs']⟩
  | mean s =>
    obtain ⟨t, ht, rfl⟩ := Result.map_eq_ok.mp hadd
    obtain ⟨u, hu, rfl⟩ := Result.map_eq_ok.mp hremove
    obtain ⟨s', hs, hs'⟩ := RunningSum.apply_comm ht hu
    exact ⟨mean s', by simp [add, hs], by simp [remove, hs']⟩
  | count n =>
    cases hadd
    cases hremove
    refine ⟨_, rfl, ?_⟩
    cases hv : v.isNull <;> cases w.isNull <;> simp [remove, hv]
  | extreme s =>
    obtain ⟨t, ht, rfl⟩ := Result.map_eq_ok.mp hadd
    cases hremove
    exact ⟨extreme (t.remove p), by simp [add, RunningExtreme.remove_add hpq ht], rfl⟩
  | undefined => cases hadd

private theorem remove_fresh_extreme {maximum : Bool} {acc : Accumulator} {p : ℤ} {v : Value}
    (h : (extreme ⟨maximum, []⟩).add p v = .ok acc) :
    acc.remove p v = .ok (extreme ⟨maximum, []⟩) := by
  obtain ⟨t, ht, rfl⟩ := Result.map_eq_ok.mp h
  cases hv : v.isNull with
  | true =>
    simp only [RunningExtreme.add, hv, if_true] at ht
    cases ht
    rfl
  | false =>
    obtain ⟨kept, hkept, rfl⟩ := (RunningExtreme.add_eq_ok hv).mp ht
    cases hkept
    simp [remove, RunningExtreme.remove]

/-- From an otherwise empty window a value leaves as it entered. -/
theorem remove_fresh {kind : AggregateKind} {acc : Accumulator} {p : ℤ} {v : Value}
    (h : (fresh kind).add p v = .ok acc) : acc.remove p v = .ok (fresh kind) := by
  cases kind with
  | sum =>
    obtain ⟨t, ht, rfl⟩ := Result.map_eq_ok.mp h
    simp [remove, RunningSum.apply_cancel ht, fresh]
  | avg =>
    obtain ⟨t, ht, rfl⟩ := Result.map_eq_ok.mp h
    simp [remove, RunningSum.apply_cancel ht, fresh]
  | count =>
    cases h
    cases hv : v.isNull <;> simp [remove, hv, fresh]
  | min => exact remove_fresh_extreme h
  | max => exact remove_fresh_extreme h

end Accumulator

/-- The values that an aggregate takes beside nulls: numbers for sums and means, values of one
column that have a comparable form for extremes, and any for counts. -/
def Fits (values : List Value) : AggregateKind → Prop
  | .sum => ∀ v ∈ values, v.isNull = true ∨ v.quantity?.isSome = true
  | .avg => ∀ v ∈ values, v.isNull = true ∨ v.quantity?.isSome = true
  | .count => True
  | .min => ∃ type, ∀ v ∈ values, v.conforms type = true ∧ v.comparable?.isSome = true
  | .max => ∃ type, ∀ v ∈ values, v.conforms type = true ∧ v.comparable?.isSome = true

namespace RunningSum

theorem exists_apply (s : RunningSum) (sign : ℤ) {v : Value}
    (h : v.isNull = true ∨ v.quantity?.isSome = true) : ∃ t, s.apply sign v = .ok t := by
  cases v <;> first | exact ⟨_, rfl⟩ | simp [Value.isNull, Value.quantity?] at h

theorem sum_eq (s : RunningSum) : (∃ v, s.sum = .ok v) ∨ s.sum = .error .overflow := by
  unfold sum
  split
  · exact .inl ⟨_, rfl⟩
  · split
    · exact .inl ⟨_, rfl⟩
    · split
      · exact .inl ⟨_, rfl⟩
      · cases Binary64.ofRat? s.total <;> simp

theorem mean_eq (s : RunningSum) : (∃ v, s.mean = .ok v) ∨ s.mean = .error .overflow := by
  unfold mean
  split
  · exact .inl ⟨_, rfl⟩
  · split
    · exact .inl ⟨_, rfl⟩
    · cases Binary64.ofRat? (s.total / mkRat s.values 1) <;> simp

end RunningSum

namespace RunningExtreme

theorem exists_overtakes {maximum : Bool} {type : ColumnType} {v w : Value}
    (hv : v.conforms type = true ∧ v.comparable?.isSome = true) (hnv : v.isNull = false)
    (hw : w.conforms type = true ∧ w.comparable?.isSome = true) (hnw : w.isNull = false) :
    ∃ b, overtakes maximum v w = .ok b := by
  obtain ⟨v', hv'⟩ := Option.isSome_iff_exists.mp hv.2
  obtain ⟨w', hw'⟩ := Option.isSome_iff_exists.mp hw.2
  have hcv := Value.conforms_of_comparable? hv' hv.1
  have hcw := Value.conforms_of_comparable? hw' hw.1
  have hav := Value.isNaive_of_comparable? hv'
  have haw := Value.isNaive_of_comparable? hw'
  have hnv' := (Value.isNull_of_comparable? hv').trans hnv
  have hnw' := (Value.isNull_of_comparable? hw').trans hnw
  obtain ⟨l, hl⟩ := Option.isSome_iff_exists.mp
    ((Value.alike_of_conforms hcv hcw hnv' hnw').less?_isSome hav haw)
  obtain ⟨l', hl'⟩ := Option.isSome_iff_exists.mp
    ((Value.alike_of_conforms hcw hcv hnw' hnv').less?_isSome haw hav)
  cases maximum <;> simp [overtakes, hv', hw', Value.atMost?, hl, hl']

theorem exists_dropOvertaken {maximum : Bool} {v : Value} {es : List Entry}
    (h : ∀ e ∈ es, ∃ b, overtakes maximum v e.value = .ok b) :
    ∃ kept, dropOvertaken maximum v es = .ok kept ∧ ∀ e ∈ kept, e ∈ es := by
  induction es with
  | nil => exact ⟨[], rfl, by simp⟩
  | cons e rest ih =>
    obtain ⟨kept, hkept, hsub⟩ := ih fun f hf => h f (by simp [hf])
    obtain ⟨b, hb⟩ := h e (by simp)
    cases b with
    | false => exact ⟨e :: rest, by simp [dropOvertaken, hb], fun f hf => hf⟩
    | true =>
      refine ⟨kept, by simp [dropOvertaken, hb, hkept], fun f hf => ?_⟩
      exact List.mem_cons_of_mem e (hsub f hf)

end RunningExtreme

namespace Accumulator

/-- An accumulator of a kind that only fitting values have entered. -/
inductive Admits (values : List Value) : AggregateKind → Accumulator → Prop
  | sum (s : RunningSum) (h : Fits values .sum) : Admits values .sum (sum s)
  | mean (s : RunningSum) (h : Fits values .avg) : Admits values .avg (mean s)
  | count (n : ℤ) : Admits values .count (count n)
  | extreme {kind : AggregateKind} (hkind : kind = .min ∨ kind = .max) {type : ColumnType}
      (htype : ∀ v ∈ values, v.conforms type = true ∧ v.comparable?.isSome = true)
      (s : RunningExtreme) (hs : ∀ e ∈ s.window, e.value ∈ values ∧ e.value.isNull = false) :
      Admits values kind (extreme s)

variable {values : List Value} {kind : AggregateKind}

theorem admits_fresh (h : Fits values kind) : Admits values kind (fresh kind) := by
  cases kind with
  | sum => exact .sum _ h
  | avg => exact .mean _ h
  | count => exact .count _
  | min =>
    obtain ⟨type, htype⟩ := h
    exact .extreme (.inl rfl) htype _ (by simp)
  | max =>
    obtain ⟨type, htype⟩ := h
    exact .extreme (.inr rfl) htype _ (by simp)

/-- Fitting values enter. -/
theorem Admits.exists_add {acc : Accumulator} (h : Admits values kind acc) (p : ℤ) {v : Value}
    (hv : v ∈ values) : ∃ acc', acc.add p v = .ok acc' ∧ Admits values kind acc' := by
  cases h with
  | sum s h =>
    obtain ⟨t, ht⟩ := s.exists_apply 1 (h v hv)
    exact ⟨.sum t, by simp [add, ht], .sum t h⟩
  | mean s h =>
    obtain ⟨t, ht⟩ := s.exists_apply 1 (h v hv)
    exact ⟨.mean t, by simp [add, ht], .mean t h⟩
  | count n => exact ⟨_, rfl, .count _⟩
  | extreme hkind htype s hs =>
    cases hnull : v.isNull with
    | true =>
      exact ⟨.extreme s, by simp [add, RunningExtreme.add, hnull], .extreme hkind htype s hs⟩
    | false =>
      have hall : ∀ e ∈ s.window.reverse,
          ∃ b, RunningExtreme.overtakes s.maximum v e.value = .ok b := by
        intro e he
        obtain ⟨hmem, hne⟩ := hs e (List.mem_reverse.mp he)
        exact RunningExtreme.exists_overtakes (htype v hv) hnull (htype e.value hmem) hne
      obtain ⟨kept, hkept, hsub⟩ := RunningExtreme.exists_dropOvertaken hall
      have hadd := (RunningExtreme.add_eq_ok (q := p) hnull).mpr ⟨kept, hkept, rfl⟩
      refine ⟨_, by rw [add, hadd, Result.map_ok], .extreme hkind htype _ ?_⟩
      intro e he
      rcases List.mem_append.mp he with he | he
      · exact hs e (List.mem_reverse.mp (hsub e (List.mem_reverse.mp he)))
      · rw [List.mem_singleton.mp he]
        exact ⟨hv, hnull⟩

/-- Only sums and means can fail, and only because a double is too small for them. -/
theorem Admits.result_eq {acc : Accumulator} (h : Admits values kind acc) :
    (∃ v, acc.result = .ok v) ∨
      acc.result = .error .overflow ∧ (kind = .sum ∨ kind = .avg) := by
  cases h with
  | sum s h => exact s.sum_eq.imp id fun he => ⟨he, .inl rfl⟩
  | mean s h => exact s.mean_eq.imp id fun he => ⟨he, .inr rfl⟩
  | count n => exact .inl ⟨_, rfl⟩
  | extreme hkind htype s hs => exact .inl ⟨_, rfl⟩

end Accumulator
end OrderedRelations
