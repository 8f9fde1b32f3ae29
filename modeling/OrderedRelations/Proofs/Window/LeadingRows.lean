import Mathlib.Data.List.Pairwise
import Mathlib.Data.List.TakeWhile
import OrderedRelations.Proofs.Window.Totals

/-!
# Rows that come first

A test that rows pass before others fail it cuts a list at the number of rows that pass. So a
frame between two such cuts holds the rows that pass the second test and fail the first, wherever
they stand.
-/

namespace OrderedRelations

variable {α β : Type} {test later : α → Bool} {xs : List α}

/-- A test that an element passes only if all elements in front of it do. -/
def Leads (test : α → Bool) (xs : List α) : Prop :=
  xs.Pairwise fun a b => test b = true → test a = true

/-- The elements that pass stand in front of the others. -/
theorem Leads.eq_append (h : Leads test xs) :
    xs = xs.filter test ++ xs.filter fun a => !test a := by
  induction xs with
  | nil => rfl
  | cons a xs ih =>
    obtain ⟨hhead, htail⟩ := List.pairwise_cons.mp h
    cases ha : test a with
    | true => simpa [ha] using ih htail
    | false =>
      have hfail : ∀ b ∈ xs, test b = false := by
        intro b hb
        by_contra hpass
        simp [hhead b hb (by simpa using hpass)] at ha
      have hnone : xs.filter test = [] := by simpa using hfail
      have hall : (xs.filter fun a => !test a) = xs := by simpa using hfail
      simp [ha, hnone, hall]

theorem Leads.take_countP (h : Leads test xs) : xs.take (xs.countP test) = xs.filter test := by
  rw [List.countP_eq_length_filter]
  conv_lhs => arg 2; rw [h.eq_append]
  exact List.take_left

theorem Leads.drop_countP (h : Leads test xs) :
    xs.drop (xs.countP test) = xs.filter fun a => !test a := by
  rw [List.countP_eq_length_filter]
  conv_lhs => arg 2; rw [h.eq_append]
  exact List.drop_left

/-- From the far end, the elements that fail come first. -/
theorem Leads.dropWhile_reverse (h : Leads test xs) :
    xs.reverse.dropWhile (fun a => !test a) = (xs.filter test).reverse := by
  have hfail : ∀ a ∈ (xs.filter fun a => !test a).reverse, (!test a) = true := by
    intro a ha
    exact (List.mem_filter.mp (List.mem_reverse.mp ha)).2
  conv_lhs => rw [h.eq_append]
  rw [List.reverse_append, List.dropWhile_append_of_pos hfail, List.dropWhile_eq_self_iff]
  intro hne hhead
  have hmem := List.mem_reverse.mp (List.getElem_mem hne)
  rw [(List.mem_filter.mp hmem).2] at hhead
  cases hhead

/-- The elements that pass are those in front of the cut. -/
theorem Leads.lt_countP_iff (h : Leads test xs) {i : ℕ} {a : α} (ha : xs[i]? = some a) :
    i < xs.countP test ↔ test a = true := by
  constructor
  · intro hlt
    have hmem : a ∈ xs.take (xs.countP test) :=
      List.mem_of_getElem? ((List.getElem?_take_of_lt hlt).trans ha)
    rw [h.take_countP] at hmem
    exact (List.mem_filter.mp hmem).2
  · intro hpass
    by_contra hge
    have hplace : (xs.drop (xs.countP test))[i - xs.countP test]? = some a := by
      rw [List.getElem?_drop, Nat.add_sub_of_le (Nat.le_of_not_lt hge), ha]
    have hmem := List.mem_of_getElem? hplace
    rw [h.drop_countP] at hmem
    simp [hpass] at hmem

/-- Dropping takes the elements that pass first. -/
theorem Leads.countP_drop (h : Leads test xs) (n : ℕ) :
    (xs.drop n).countP test = xs.countP test - n := by
  have hpass : ((xs.filter test).drop n).countP test = ((xs.filter test).drop n).length :=
    List.countP_eq_length.mpr fun a ha => (List.mem_filter.mp (List.mem_of_mem_drop ha)).2
  have hfail : ∀ m, ((xs.filter fun a => !test a).drop m).countP test = 0 := fun m =>
    List.countP_eq_zero.mpr fun a ha => by
      simpa using (List.mem_filter.mp (List.mem_of_mem_drop ha)).2
  conv_lhs => rw [h.eq_append]
  rw [List.drop_append, List.countP_append, hpass, hfail, List.length_drop, Nat.add_zero,
    List.countP_eq_length_filter]

/-- Between two cuts stand the elements that pass the second test and fail the first. -/
theorem Leads.between (h : Leads test xs) (hlater : Leads later xs) :
    (xs.drop (xs.countP test)).take (xs.countP later - xs.countP test) =
      xs.filter fun a => !test a && later a := by
  have hrest : Leads later (xs.drop (xs.countP test)) := List.Pairwise.drop hlater
  rw [← hlater.countP_drop, hrest.take_countP, h.drop_countP, List.filter_filter]
  exact List.filter_congr fun a _ => Bool.and_comm _ _

/-- A cut that separates the elements that pass lies behind as many of them. -/
theorem countP_of_cut {n : ℕ} (hn : n ≤ xs.length)
    (hcut : ∀ {i : ℕ} {a : α}, xs[i]? = some a → (i < n ↔ test a = true)) : xs.countP test = n := by
  have hpass : (xs.take n).countP test = (xs.take n).length := by
    refine List.countP_eq_length.mpr fun a ha => ?_
    obtain ⟨i, hi⟩ := List.getElem?_of_mem ha
    rw [List.getElem?_take] at hi
    split at hi
    · exact (hcut hi).mp ‹_›
    · cases hi
  have hfail : (xs.drop n).countP test = 0 := by
    refine List.countP_eq_zero.mpr fun a ha hpass => ?_
    obtain ⟨i, hi⟩ := List.getElem?_of_mem ha
    rw [List.getElem?_drop] at hi
    have hlt := (hcut hi).mpr hpass
    omega
  conv_lhs => rw [← List.take_append_drop n xs]
  rw [List.countP_append, hpass, hfail, List.length_take]
  omega

namespace FrameAggregate

/-- A frame between two cuts holds the rows that pass the second test and fail the first. -/
theorem framed_eq_filter (h : Leads test xs) (hlater : Leads later xs) (f : α → Value) :
    framed (xs.map f) ⟨xs.countP test, xs.countP later⟩ =
      (xs.filter fun a => !test a && later a).map f := by
  have hstop : (stop ⟨xs.countP test, xs.countP later⟩).toNat - xs.countP test =
      xs.countP later - xs.countP test := by
    simp only [stop]
    omega
  rw [framed, Int.toNat_natCast, hstop, ← List.map_drop, ← List.map_take, h.between hlater]

end FrameAggregate
end OrderedRelations
