import Mathlib.Data.List.Basic
import OrderedRelations.Text.Captures

/-!
# What is captured

A text is cut wherever something is captured: into what was captured and the rest. So each way of
capturing is known from its alternatives, whatever their order.
-/

namespace OrderedRelations.Text.Captures

variable {α β : Type} {cs rest word : List Char}

theorem mem_run {inClass : Char → Bool} : (word, rest) ∈ run inClass cs ↔
    word ≠ [] ∧ (∀ c ∈ word, inClass c) ∧ cs = word ++ rest := by
  induction cs generalizing word rest with
  | nil =>
    cases word <;> simp [run]
  | cons c cs ih =>
    rw [run]
    split
    · rename_i hc
      simp only [List.mem_append, List.mem_map, Prod.exists, Prod.mk.injEq, ih, List.mem_singleton]
      constructor
      · rintro (⟨more, rest', ⟨-, hmore, rfl⟩, rfl, rfl⟩ | ⟨rfl, rfl⟩)
        · exact ⟨List.cons_ne_nil _ _, List.forall_mem_cons.mpr ⟨hc, hmore⟩, rfl⟩
        · exact ⟨List.cons_ne_nil _ _, by simpa using hc, rfl⟩
      · rintro ⟨hne, hword, hcs⟩
        obtain ⟨d, more, rfl⟩ := List.exists_cons_of_ne_nil hne
        obtain ⟨rfl, rfl⟩ := List.cons.inj hcs
        cases more with
        | nil => exact .inr ⟨rfl, rfl⟩
        | cons e more => exact .inl ⟨e :: more, rest,
            ⟨List.cons_ne_nil _ _, (List.forall_mem_cons.mp hword).2, rfl⟩, rfl, rfl⟩
    · rename_i hc
      refine iff_of_false (by simp) fun ⟨hne, hword, hcs⟩ => ?_
      obtain ⟨d, more, rfl⟩ := List.exists_cons_of_ne_nil hne
      exact hc ((List.cons.inj hcs).1 ▸ (List.forall_mem_cons.mp hword).1)

theorem mem_optional {capture : List Char → Captures α} {found : Option α} :
    (found, rest) ∈ optional capture cs ↔
      (∃ a, found = some a ∧ (a, rest) ∈ capture cs) ∨ found = none ∧ rest = cs := by
  simp only [optional, List.mem_append, List.mem_map, Prod.exists, Prod.mk.injEq,
    List.mem_singleton]
  exact or_congr_left ⟨fun ⟨a, _, h, hfound, hrest⟩ => ⟨a, hfound.symm, hrest ▸ h⟩,
    fun ⟨a, hfound, h⟩ => ⟨a, rest, h, hfound.symm, rfl⟩⟩

theorem mem_andThen {found : Captures α} {next : α → List Char → Captures β} {b : β} :
    (b, rest) ∈ andThen found next ↔
      ∃ a between, (a, between) ∈ found ∧ (b, rest) ∈ next a between := by
  simp [andThen]

end OrderedRelations.Text.Captures
