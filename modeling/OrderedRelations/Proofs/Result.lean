import Mathlib.Data.List.Forall2
import OrderedRelations.Relation.Basic

/-!
# Opening results

A computation that answers is taken apart step by step: what a composition answered, its first
step answered, and a traversal answers as a list exactly where every element does.
-/

namespace OrderedRelations.Result

variable {α β : Type}

@[simp] theorem ok_bind (a : α) (f : α → Result β) : ((.ok a : Result α) >>= f) = f a := rfl

@[simp] theorem error_bind (e : Failure) (f : α → Result β) :
    ((.error e : Result α) >>= f) = .error e := rfl

@[simp] theorem pure_eq_ok (a : α) : (pure a : Result α) = .ok a := rfl

@[simp] theorem throw_eq_error (e : Failure) : (throw e : Result α) = .error e := rfl

@[simp] theorem bind_ok (x : Result α) : (x >>= fun a => .ok a) = x := by
  cases x <;> rfl

@[simp] theorem map_ok (f : α → β) (a : α) : Except.map f (.ok a : Result α) = .ok (f a) := rfl

@[simp] theorem map_error (f : α → β) (e : Failure) :
    Except.map f (.error e : Result α) = .error e := rfl

theorem bind_eq_ok {x : Result α} {f : α → Result β} {b : β} :
    x >>= f = .ok b ↔ ∃ a, x = .ok a ∧ f a = .ok b := by
  cases x <;> simp

theorem map_eq_ok {f : α → β} {x : Result α} {b : β} :
    x.map f = .ok b ↔ ∃ a, x = .ok a ∧ f a = b := by
  cases x <;> simp

@[simp] theorem orElse_some (e : Failure) (a : α) : orElse e (some a) = .ok a := rfl

@[simp] theorem orElse_none (e : Failure) : (orElse e none : Result α) = .error e := rfl

theorem orElse_eq_ok {e : Failure} {o : Option α} {a : α} :
    orElse e o = .ok a ↔ o = some a := by
  cases o <;> simp

/-- A traversal answers exactly where every element does. -/
theorem mapM_eq_ok {f : α → Result β} {xs : List α} {ys : List β} :
    xs.mapM f = .ok ys ↔ List.Forall₂ (fun x y => f x = .ok y) xs ys := by
  induction xs generalizing ys with
  | nil => cases ys <;> simp
  | cons x xs ih =>
    rw [List.mapM_cons, bind_eq_ok, List.forall₂_cons_left_iff]
    constructor
    · rintro ⟨y, hy, h⟩
      obtain ⟨zs, hzs, rfl⟩ : ∃ zs, xs.mapM f = .ok zs ∧ y :: zs = ys := by
        simpa [bind_eq_ok] using h
      exact ⟨y, zs, hy, ih.mp hzs, rfl⟩
    · rintro ⟨y, zs, hy, hzs, rfl⟩
      exact ⟨y, hy, by simp [ih.mpr hzs]⟩

/-- Each element of a traversal that answers has an answer of its own. -/
theorem exists_of_mapM {f : α → Result β} {xs : List α} {ys : List β} (h : xs.mapM f = .ok ys)
    {x : α} (hx : x ∈ xs) : ∃ y ∈ ys, f x = .ok y := by
  obtain ⟨i, hi, rfl⟩ := List.getElem_of_mem hx
  have hall := mapM_eq_ok.mp h
  exact ⟨_, List.getElem_mem (hall.length_eq ▸ hi), hall.get hi (hall.length_eq ▸ hi)⟩

/-- Each answer of a traversal is that of some element. -/
theorem exists_source_of_mapM {f : α → Result β} {xs : List α} {ys : List β}
    (h : xs.mapM f = .ok ys) {y : β} (hy : y ∈ ys) : ∃ x ∈ xs, f x = .ok y := by
  obtain ⟨i, hi, rfl⟩ := List.getElem_of_mem hy
  have hall := mapM_eq_ok.mp h
  exact ⟨_, List.getElem_mem (hall.length_eq ▸ hi), hall.get (hall.length_eq ▸ hi) hi⟩

theorem mapM_eq_map {f : α → Result β} {g : α → β} {xs : List α}
    (h : ∀ x ∈ xs, f x = .ok (g x)) : xs.mapM f = .ok (xs.map g) := by
  rw [mapM_eq_ok, List.forall₂_map_right_iff, List.forall₂_same]
  exact h

theorem mapM_eq_self {f : α → Result α} {xs : List α} (h : ∀ x ∈ xs, f x = .ok x) :
    xs.mapM f = .ok xs := by
  have hmap : xs.mapM f = .ok (xs.map id) := mapM_eq_map h
  rwa [List.map_id] at hmap

theorem exists_mapM {f : α → Result β} {P : α → β → Prop} {xs : List α}
    (h : ∀ x ∈ xs, ∃ y, f x = .ok y ∧ P x y) : ∃ ys, xs.mapM f = .ok ys ∧ List.Forall₂ P xs ys := by
  induction xs with
  | nil => exact ⟨[], rfl, .nil⟩
  | cons x xs ih =>
    obtain ⟨y, hy, hP⟩ := h x (by simp)
    obtain ⟨ys, hys, hall⟩ := ih fun z hz => h z (by simp [hz])
    exact ⟨y :: ys, by simp [hy, hys], .cons hP hall⟩

/-- A traversal answers as soon as every element does. -/
theorem exists_mapM_iff {f : α → Result β} {xs : List α} :
    (∃ ys, xs.mapM f = .ok ys) ↔ ∀ x ∈ xs, ∃ y, f x = .ok y := by
  constructor
  · rintro ⟨ys, h⟩ x hx
    obtain ⟨y, -, hy⟩ := exists_of_mapM h hx
    exact ⟨y, hy⟩
  · intro h
    obtain ⟨ys, hys, -⟩ := exists_mapM (P := fun _ _ => True)
      fun x hx => (h x hx).imp fun y hy => ⟨hy, trivial⟩
    exact ⟨ys, hys⟩

/-- Traversals that agree element by element agree. -/
theorem mapM_congr {γ : Type} {f : α → Result β} {g : γ → Result β} {xs : List α} {ys : List γ}
    (h : List.Forall₂ (fun x y => f x = g y) xs ys) : xs.mapM f = ys.mapM g := by
  induction h with
  | nil => rfl
  | cons hx _ ih => rw [List.mapM_cons, List.mapM_cons, hx, ih]

/-- A traversal of the answers of another one answers as the composition does. -/
theorem mapM_bind_mapM_eq_ok {γ : Type} {f : α → Result β} {g : β → Result γ} {xs : List α}
    {zs : List γ} : (xs.mapM f >>= fun ys => ys.mapM g) = .ok zs ↔
      xs.mapM (fun x => f x >>= g) = .ok zs := by
  simp only [bind_eq_ok, mapM_eq_ok]
  constructor
  · rintro ⟨ys, hys, hzs⟩
    induction hys generalizing zs with
    | nil =>
      cases hzs
      exact .nil
    | cons hy _ ih =>
      cases hzs with
      | cons hz hzs => exact .cons ⟨_, hy, hz⟩ (ih hzs)
  · intro h
    induction h with
    | nil => exact ⟨[], .nil, .nil⟩
    | cons hx _ ih =>
      obtain ⟨y, hy, hz⟩ := hx
      obtain ⟨ys, hys, hzs⟩ := ih
      exact ⟨y :: ys, .cons hy hys, .cons hz hzs⟩

/-- A traversal answers with the values that its elements are known to have. -/
theorem exists_mapM_eq_map_iff {f : α → Result β} {g : α → Option β} {xs : List α} :
    (∃ ys, xs.mapM f = .ok ys ∧ xs.map g = ys.map some) ↔
      ∀ x ∈ xs, ∃ y, g x = some y ∧ f x = .ok y := by
  constructor
  · rintro ⟨ys, hys, hknown⟩
    rw [mapM_eq_ok] at hys
    induction hys with
    | nil => simp
    | cons hy _ ih =>
      rw [List.map_cons, List.map_cons, List.cons.injEq] at hknown
      exact List.forall_mem_cons.mpr ⟨⟨_, hknown.1, hy⟩, ih hknown.2⟩
  · intro h
    induction xs with
    | nil => exact ⟨[], rfl, rfl⟩
    | cons x xs ih =>
      obtain ⟨⟨y, hy, hfx⟩, hrest⟩ := List.forall_mem_cons.mp h
      obtain ⟨ys, hys, hknown⟩ := ih hrest
      exact ⟨y :: ys, by simp [hfx, hys], by simp [hy, hknown]⟩

/-- A traversal that can fail in one way only fails so where an element does. -/
theorem mapM_eq_error {f : α → Result β} {e : Failure} {xs : List α}
    (honly : ∀ x ∈ xs, ∀ e', f x = .error e' → e' = e) (hfails : ∃ x ∈ xs, f x = .error e) :
    xs.mapM f = .error e := by
  induction xs with
  | nil => simp at hfails
  | cons x xs ih =>
    rw [List.mapM_cons]
    cases hx : f x with
    | error e' => simp [honly x (by simp) e' hx]
    | ok y =>
      obtain ⟨z, hz, hfz⟩ := hfails
      rcases List.mem_cons.mp hz with rfl | hz
      · simp [hx] at hfz
      · simp [ih (fun w hw => honly w (by simp [hw])) ⟨z, hz, hfz⟩]

theorem bind_eq_error {x : Result α} {f : α → Result β} {e : Failure} :
    x >>= f = .error e ↔ x = .error e ∨ ∃ a, x = .ok a ∧ f a = .error e := by
  cases x <;> simp

theorem map_eq_error {f : α → β} {x : Result α} {e : Failure} :
    x.map f = .error e ↔ x = .error e := by
  cases x <;> simp

theorem orElse_eq_error {e e' : Failure} {o : Option α} :
    orElse e o = .error e' ↔ o = none ∧ e = e' := by
  cases o <;> simp

/-- A traversal fails as one of its elements does. -/
theorem exists_error_of_mapM {f : α → Result β} {xs : List α} {e : Failure}
    (h : xs.mapM f = .error e) : ∃ x ∈ xs, f x = .error e := by
  induction xs with
  | nil => cases h
  | cons x xs ih =>
    rw [List.mapM_cons, bind_eq_error] at h
    rcases h with h | ⟨y, -, h⟩
    · exact ⟨x, by simp, h⟩
    · rcases bind_eq_error.mp h with h | ⟨ys, -, h⟩
      · obtain ⟨z, hz, hfz⟩ := ih h
        exact ⟨z, by simp [hz], hfz⟩
      · cases h

/-- Keeping by a test that answers is filtering. -/
theorem keep_eq_filter {test : α → Result Bool} {p : α → Bool} {xs : List α}
    (h : ∀ x ∈ xs, test x = .ok (p x)) : Relation.keep test xs = .ok (xs.filter p) := by
  induction xs with
  | nil => rfl
  | cons x xs ih =>
    have hx := h x (by simp)
    have hxs := ih fun y hy => h y (by simp [hy])
    cases hp : p x <;> simp [Relation.keep, hx, hxs, hp]

theorem keep_sublist {test : α → Result Bool} {xs ys : List α}
    (h : Relation.keep test xs = .ok ys) : ys.Sublist xs := by
  induction xs generalizing ys with
  | nil =>
    cases h
    exact .refl _
  | cons x xs ih =>
    simp only [Relation.keep, bind_eq_ok, pure_eq_ok, Except.ok.injEq] at h
    obtain ⟨passes, -, rest, hrest, rfl⟩ := h
    cases passes with
    | true => exact (ih hrest).cons_cons x
    | false => exact (ih hrest).cons x

/-- A computation that answers with a property, or else overflows. -/
def Yields (x : Result α) (P : α → Prop) : Prop := x = .error .overflow ∨ ∃ a, x = .ok a ∧ P a

namespace Yields

variable {x : Result α} {P : α → Prop} {Q : β → Prop}

theorem ok {a : α} (h : P a) : Yields (.ok a) P := .inr ⟨a, rfl, h⟩

theorem overflow : Yields (.error .overflow : Result α) P := .inl rfl

theorem orElse (o : Option α) : Yields (orElse .overflow o) fun a => o = some a := by
  cases o with
  | none => exact overflow
  | some a => exact ok rfl

theorem mono {P' : α → Prop} (h : Yields x P) (himp : ∀ a, P a → P' a) : Yields x P' := by
  rcases h with h | ⟨a, h, ha⟩
  · exact .inl h
  · exact .inr ⟨a, h, himp a ha⟩

theorem bind {f : α → Result β} (h : Yields x P) (hf : ∀ a, P a → Yields (f a) Q) :
    Yields (x >>= f) Q := by
  rcases h with rfl | ⟨a, rfl, ha⟩
  · exact overflow
  · exact hf a ha

theorem map {f : α → β} (h : Yields x P) (hf : ∀ a, P a → Q (f a)) : Yields (x.map f) Q := by
  rcases h with rfl | ⟨a, rfl, ha⟩
  · exact overflow
  · exact ok (hf a ha)

theorem mapM {f : α → Result β} {R : α → β → Prop} {xs : List α}
    (h : ∀ a ∈ xs, Yields (f a) (R a)) : Yields (xs.mapM f) (List.Forall₂ R xs) := by
  induction xs with
  | nil => exact ok .nil
  | cons a xs ih =>
    rw [List.mapM_cons]
    refine (h a (by simp)).bind fun b hb => ?_
    exact (ih fun c hc => h c (by simp [hc])).bind fun bs hbs => ok (.cons hb hbs)

theorem mapM_all {f : α → Result β} {xs : List α} (h : ∀ a ∈ xs, Yields (f a) Q) :
    Yields (xs.mapM f) fun ys => ys.length = xs.length ∧ ∀ b ∈ ys, Q b := by
  refine (mapM h).mono fun ys hys => ⟨hys.length_eq.symm, fun b hb => ?_⟩
  obtain ⟨i, hi, rfl⟩ := List.getElem_of_mem hb
  exact hys.get (hys.length_eq ▸ hi) hi

theorem of_ok {a : α} (h : Yields x P) (ha : x = .ok a) : P a := by
  rcases h with h | ⟨b, h, hb⟩
  · rw [h] at ha
    cases ha
  · rw [h] at ha
    cases ha
    exact hb

end Yields

/-- A computation that fails, if at all, in other ways than some. -/
def Avoids (P : Failure → Prop) (x : Result α) : Prop := ∀ e, x = .error e → ¬ P e

namespace Avoids

variable {P : Failure → Prop} {x : Result α}

theorem ok (a : α) : Avoids P (.ok a : Result α) := fun _ h => nomatch h

theorem error {e : Failure} (h : ¬ P e) : Avoids P (.error e : Result α) := by
  rintro _ ⟨⟩
  exact h

theorem orElse {e : Failure} (h : ¬ P e) (o : Option α) : Avoids P (orElse e o) := by
  cases o with
  | none => exact error h
  | some a => exact ok a

theorem bind {f : α → Result β} (h : Avoids P x) (hf : ∀ a, x = .ok a → Avoids P (f a)) :
    Avoids P (x >>= f) := by
  intro e he
  rcases bind_eq_error.mp he with he | ⟨a, ha, he⟩
  · exact h e he
  · exact hf a ha e he

theorem map {f : α → β} (h : Avoids P x) : Avoids P (x.map f) :=
  fun e he => h e (map_eq_error.mp he)

theorem mapM {f : α → Result β} {xs : List α} (h : ∀ a ∈ xs, Avoids P (f a)) :
    Avoids P (xs.mapM f) := by
  intro e he
  obtain ⟨a, ha, hfa⟩ := exists_error_of_mapM he
  exact h a ha e hfa

theorem mono {Q : Failure → Prop} (h : Avoids P x) (himp : ∀ e, Q e → P e) : Avoids Q x :=
  fun e he hQ => h e he (himp e hQ)

end Avoids

/-- What only overflows avoids every other failure. -/
theorem Yields.avoids {P : Failure → Prop} {x : Result α} {Q : α → Prop} (h : Yields x Q)
    (hoverflow : ¬ P .overflow) : Avoids P x := by
  rcases h with rfl | ⟨a, rfl, -⟩
  · exact .error hoverflow
  · exact .ok a

end OrderedRelations.Result
