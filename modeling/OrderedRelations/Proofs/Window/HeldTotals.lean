import Mathlib.Algebra.BigOperators.Ring.Finset
import OrderedRelations.Proofs.Window.Totals

/-!
# Totals of what is inside

Values enter and leave a sum or a mean in any order. As long as only values leave that are inside,
the state is that of the values inside, so every result is theirs: what was inside before, and a
result out of range in between, leave no trace.
-/

namespace OrderedRelations

namespace Value

/-- The whole number that a boolean or a whole number stands for. -/
def whole : Value → ℤ
  | bool b => if b then 1 else 0
  | int n => n
  | _ => 0

theorem exact_eq_whole {v : Value} (h : v.isFloat = false) : v.exact = v.whole := by
  cases v with
  | bool b => cases b <;> simp [exact, whole]
  | float x => cases h
  | _ => simp [exact, whole]

end Value

/-! The totals of the values inside, without regard to how they came there. -/

namespace Inside

instance (inside : Multiset Value) (p : Value → Bool) : Decidable (∃ v ∈ inside, p v = true) :=
  Multiset.decidableExistsMultiset

/-- The result that values without a finite sum force. -/
def special? (inside : Multiset Value) : Option Binary64 :=
  if (∃ v ∈ inside, v.isNaN = true) ∨
      (∃ v ∈ inside, v.isInfinity false = true) ∧ ∃ v ∈ inside, v.isInfinity true = true then
    some .undefined
  else if ∃ v ∈ inside, v.isInfinity false = true then some (.infinity false)
  else if ∃ v ∈ inside, v.isInfinity true = true then some (.infinity true)
  else none

/-- Rounds a finite total once, unless infinities or what is not a number decide. -/
def settle (inside : Multiset Value) (total : ℚ) : Result Value :=
  match special? inside with
  | some x => .ok (.float x)
  | none => (orElse .overflow (Binary64.ofRat? total)).map .float

/-- The sum of the values inside: null for none, and whole when no double is among them. -/
def sum (inside : Multiset Value) : Result Value :=
  if ∀ v ∈ inside, v.isNull = true then .ok .null
  else if ∀ v ∈ inside, v.isFloat = false then .ok (.int (inside.map Value.whole).sum)
  else settle inside (inside.map Value.exact).sum

/-- The mean of the values inside, a double even for whole numbers. -/
def mean (inside : Multiset Value) : Result Value :=
  if ∀ v ∈ inside, v.isNull = true then .ok .null
  else settle inside ((inside.map Value.exact).sum / inside.countP fun v => !v.isNull)

end Inside

namespace RunningSum

/-- The state that belongs to the values inside. -/
def holding (inside : Multiset Value) : RunningSum where
  total := (inside.map Value.exact).sum
  values := inside.countP fun v => !v.isNull
  floats := inside.countP fun v => v.isFloat
  nans := inside.countP fun v => v.isNaN
  positives := inside.countP fun v => v.isInfinity false
  negatives := inside.countP fun v => v.isInfinity true

theorem holding_zero : holding 0 = empty := by simp [holding, empty]

variable {inside : Multiset Value} {v : Value}

theorem holding_cons (v : Value) (inside : Multiset Value) : holding (v ::ₘ inside) =
    { total := (holding inside).total + v.exact
      values := (holding inside).values + if v.isNull then 0 else 1
      floats := (holding inside).floats + if v.isFloat then 1 else 0
      nans := (holding inside).nans + if v.isNaN then 1 else 0
      positives := (holding inside).positives + if v.isInfinity false then 1 else 0
      negatives := (holding inside).negatives + if v.isInfinity true then 1 else 0 } := by
  simp only [holding, Multiset.map_cons, Multiset.sum_cons, Multiset.countP_cons, mk.injEq]
  refine ⟨add_comm _ _, ?_, ?_, ?_, ?_, ?_⟩
  · cases v.isNull <;> simp
  · cases v.isFloat <;> simp
  · cases v.isNaN <;> simp
  · cases v.isInfinity false <;> simp
  · cases v.isInfinity true <;> simp

theorem enter_holding (hv : v.isNull = true ∨ v.quantity?.isSome = true) :
    (holding inside).apply 1 v = .ok (holding (v ::ₘ inside)) := by
  obtain ⟨t, ht⟩ := (holding inside).exists_apply 1 hv
  obtain ⟨share, hshare, rfl⟩ := apply_eq_ok.mp ht
  rw [ht, holding_cons, eq_of_share? hshare]
  rfl

theorem leave_holding (hv : v.isNull = true ∨ v.quantity?.isSome = true) :
    (holding (v ::ₘ inside)).apply (-1) v = .ok (holding inside) :=
  apply_cancel (enter_holding hv)

theorem values_holding : (holding inside).values = 0 ↔ ∀ v ∈ inside, v.isNull = true := by
  simp [holding, Multiset.countP_eq_zero]

theorem floats_holding : (holding inside).floats = 0 ↔ ∀ v ∈ inside, v.isFloat = false := by
  simp [holding, Multiset.countP_eq_zero]

theorem special?_holding : (holding inside).special? = Inside.special? inside := by
  have hcount : ∀ p : Value → Bool,
      ((inside.countP fun v => p v = true : ℕ) : ℤ) ≠ 0 ↔ ∃ v ∈ inside, p v = true := by
    intro p
    rw [Int.natCast_ne_zero, ← Nat.pos_iff_ne_zero, Multiset.countP_pos]
  simp only [special?, Inside.special?, holding, hcount]

/-- Only doubles force a result. -/
theorem special?_of_no_float (h : ∀ v ∈ inside, v.isFloat = false) :
    Inside.special? inside = none := by
  have hnone : ∀ p : Value → Bool, (∀ v, p v = true → v.isFloat = true) →
      ¬ ∃ v ∈ inside, p v = true := by
    rintro p hp ⟨v, hv, hpv⟩
    have hfloat := hp v hpv
    rw [h v hv] at hfloat
    cases hfloat
  have hnan := hnone Value.isNaN fun v hv => by cases v <;> first | rfl | cases hv
  have hinfinity : ∀ negative, ¬ ∃ v ∈ inside, v.isInfinity negative = true :=
    fun negative => hnone (Value.isInfinity negative) fun v hv => by
      cases v <;> first | rfl | cases hv
  simp only [Inside.special?, hnan, hinfinity, false_and, or_false, if_false]

theorem truncate_holding (h : ∀ v ∈ inside, v.isFloat = false) :
    truncate (holding inside).total = (inside.map Value.whole).sum := by
  have hwhole : (holding inside).total = ((inside.map Value.whole).sum : ℤ) := by
    rw [holding, Int.cast_multiset_sum, Multiset.map_map]
    exact congrArg _ (Multiset.map_congr rfl fun v hv => Value.exact_eq_whole (h v hv))
  rw [hwhole, truncate, Rat.num_intCast, Rat.den_intCast, Nat.cast_one, Int.tdiv_one]

theorem sum_holding (inside : Multiset Value) : (holding inside).sum = Inside.sum inside := by
  simp only [sum, Inside.sum, Inside.settle, values_holding, floats_holding, special?_holding]
  split
  · rfl
  · split
    · rename_i h
      rw [truncate_holding h]
    · rfl

theorem mean_holding (inside : Multiset Value) : (holding inside).mean = Inside.mean inside := by
  have hforced : (if (holding inside).floats = 0 then none else (holding inside).special?) =
      Inside.special? inside := by
    split
    · rename_i h
      rw [special?_of_no_float (floats_holding.mp h)]
    · exact special?_holding
  have hcount : mkRat (holding inside).values 1 = (inside.countP fun v => !v.isNull : ℕ) := by
    simp [holding, Rat.mkRat_eq_div]
  simp only [mean, Inside.mean, Inside.settle, values_holding, hforced, hcount]
  rfl

end RunningSum

namespace Accumulator

/-- What a caller does with an accumulator. -/
inductive Call where
  | add (position : ℤ) (v : Value)
  | remove (position : ℤ) (v : Value)
  | result

def Call.entered? : Call → Option Value
  | add _ v => some v
  | _ => none

/-- Makes calls one by one and lists the results, those that fail among them. -/
def answers : List Call → Accumulator → Result (List (Result Value))
  | [], _ => .ok []
  | .add position v :: rest, acc => do
    let acc ← acc.add position v
    answers rest acc
  | .remove position v :: rest, acc => do
    let acc ← acc.remove position v
    answers rest acc
  | .result :: rest, acc => do
    let results ← answers rest acc
    pure (acc.result :: results)

/-- Calls that take out only what is inside, with the values inside at each result. -/
inductive Balanced : Multiset Value → List Call → List (Multiset Value) → Prop
  | nil (inside : Multiset Value) : Balanced inside [] []
  | add {inside : Multiset Value} {rest : List Call} {contents : List (Multiset Value)}
      (position : ℤ) (v : Value) (h : Balanced (v ::ₘ inside) rest contents) :
      Balanced inside (.add position v :: rest) contents
  | remove {inside : Multiset Value} {rest : List Call} {contents : List (Multiset Value)}
      (position : ℤ) (v : Value) (h : Balanced inside rest contents) :
      Balanced (v ::ₘ inside) (.remove position v :: rest) contents
  | result {inside : Multiset Value} {rest : List Call} {contents : List (Multiset Value)}
      (h : Balanced inside rest contents) :
      Balanced inside (.result :: rest) (inside :: contents)

/-- Calls on an accumulator that wraps a sum give the results of the values inside. -/
theorem answers_holding (wrap : RunningSum → Accumulator)
    (hadd : ∀ s p v, (wrap s).add p v = (s.apply 1 v).map wrap)
    (hremove : ∀ s p v, (wrap s).remove p v = (s.apply (-1) v).map wrap)
    {inside : Multiset Value} {calls : List Call} {contents : List (Multiset Value)}
    (h : Balanced inside calls contents)
    (hinside : ∀ v ∈ inside, v.isNull = true ∨ v.quantity?.isSome = true)
    (hcalls : Fits (calls.filterMap Call.entered?) .sum) :
    answers calls (wrap (.holding inside)) =
      .ok (contents.map fun inside => (wrap (.holding inside)).result) := by
  induction h with
  | nil inside => rfl
  | add position v h ih =>
    have hv : v.isNull = true ∨ v.quantity?.isSome = true := hcalls v List.mem_cons_self
    rw [answers, hadd, RunningSum.enter_holding hv, Result.map_ok, Result.ok_bind]
    refine ih (Multiset.forall_mem_cons.mpr ⟨hv, hinside⟩) fun w hw => ?_
    exact hcalls w (List.mem_cons_of_mem v hw)
  | remove position v h ih =>
    obtain ⟨hv, hinside⟩ := Multiset.forall_mem_cons.mp hinside
    rw [answers, hremove, RunningSum.leave_holding hv, Result.map_ok, Result.ok_bind]
    exact ih hinside hcalls
  | result h ih =>
    rw [answers, ih hinside hcalls]
    rfl

/-- Whatever values enter and leave, in any order and as often as they like: each result of a sum
and of a mean is the one of the values then inside. So a result is the same after any calls that
leave the same values inside, and one that is out of range changes none of the later ones. -/
theorem answers_inside {calls : List Call} {contents : List (Multiset Value)}
    (h : Balanced 0 calls contents) (hcalls : Fits (calls.filterMap Call.entered?) .sum) :
    answers calls (fresh .sum) = .ok (contents.map Inside.sum) ∧
      answers calls (fresh .avg) = .ok (contents.map Inside.mean) := by
  have hinside : ∀ v ∈ (0 : Multiset Value), v.isNull = true ∨ v.quantity?.isSome = true :=
    fun v hv => absurd hv (Multiset.notMem_zero v)
  have hsum := answers_holding sum (fun _ _ _ => rfl) (fun _ _ _ => rfl) h hinside hcalls
  have hmean := answers_holding mean (fun _ _ _ => rfl) (fun _ _ _ => rfl) h hinside hcalls
  simp only [result, RunningSum.sum_holding, RunningSum.mean_holding,
    RunningSum.holding_zero] at hsum hmean
  exact ⟨hsum, hmean⟩

/-- Two doubles that are too large together, an infinity beside them for a while, and a boolean
after one of them has left. -/
theorem answers_inside_tooLarge :
    let large : Value := .float (.number (mkRat (2 ^ 1023) 1))
    let infinite : Value := .float (.infinity false)
    let calls : List Call := [.add 0 large, .add 1 large, .result, .add 2 infinite, .result,
      .remove 0 large, .remove 2 infinite, .add 3 (.bool true), .remove 1 large, .result]
    let contents : List (Multiset Value) :=
      [large ::ₘ large ::ₘ 0, infinite ::ₘ large ::ₘ large ::ₘ 0, .bool true ::ₘ 0]
    Balanced 0 calls contents ∧ Fits (calls.filterMap Call.entered?) .sum ∧
      answers calls (fresh .sum) = .ok (contents.map Inside.sum) ∧
      contents.map Inside.sum =
        [.error .overflow, .ok infinite, .ok (.int 1)] := by
  intro large infinite calls contents
  have hbalanced : Balanced 0 calls contents := by
    refine .add 0 large (.add 1 large (.result (.add 2 infinite (.result ?_))))
    rw [Multiset.cons_swap]
    refine .remove 0 large (.remove 2 infinite (.add 3 _ ?_))
    rw [Multiset.cons_swap]
    exact .remove 1 large (.result (.nil _))
  have hcalls : Fits (calls.filterMap Call.entered?) .sum := by
    have hlist : calls.filterMap Call.entered? = [large, large, infinite, .bool true] := rfl
    rw [hlist]
    intro v hv
    simp only [List.mem_cons, List.not_mem_nil, or_false] at hv
    rcases hv with rfl | rfl | rfl | rfl <;> exact .inr rfl
  have hoverflow : Binary64.ofRat? (mkRat (2 ^ 1023) 1 + mkRat (2 ^ 1023) 1) = none := by
    decide +kernel
  refine ⟨hbalanced, hcalls, (answers_inside hbalanced hcalls).1, ?_⟩
  dsimp only [contents, large, infinite]
  generalize mkRat (2 ^ 1023) 1 = q at hoverflow ⊢
  simp [Inside.sum, Inside.settle, Inside.special?, Value.isNull,
    Value.isFloat, Value.isNaN, Value.isInfinity, Value.exact, Value.whole, Binary64.toRat?,
    hoverflow]

end Accumulator
end OrderedRelations
