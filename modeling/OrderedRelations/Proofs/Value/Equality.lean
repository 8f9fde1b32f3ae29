import OrderedRelations.Relation.Basic

/-!
# Equality of cells

Equality of values is symmetric and transitive, through kinds and into lists and records, and so
is being the same key. A cell, whatever the type of its column, is the same key as itself.
-/

namespace OrderedRelations

namespace Quantity

/-- Quantities are equal where they have one place on the number line. -/
theorem same_iff {p q : Quantity} :
    p.same q = true ↔ ∃ x, p.place? = some x ∧ q.place? = some x := by
  unfold same
  split
  · rename_i m n
    have hinj : mkRat m 1 = mkRat n 1 ↔ m = n := by
      rw [Rat.mkRat_eq_iff (by decide) (by decide)]
      omega
    simp [place?, hinj, eq_comm]
  · split
    · simp [*, eq_comm]
    · rename_i hnone
      constructor
      · intro h
        cases h
      · rintro ⟨x, hp, hq⟩
        exact (hnone x x hp hq).elim

end Quantity

theorem DateTime.same_comm (s t : DateTime) : s.same t = t.same s := by
  simp only [same]
  cases s.isAware <;> cases t.isAware <;> simp [eq_comm]

theorem DateTime.same_trans {s t u : DateTime} (h : s.same t = true) (h' : t.same u = true) :
    s.same u = true := by
  simp only [same] at *
  cases hs : s.isAware <;> cases ht : t.isAware <;> cases hu : u.isAware <;> simp_all

namespace Value

/-- A value that stands for a number is equal to values that stand for an equal one. -/
theorem same_eq_of_quantity {a b : Value} {p : Quantity} (h : a.quantity? = some p) :
    a.same b = match b.quantity? with
      | some q => p.same q
      | none => false := by
  cases a <;> simp only [quantity?, Option.some.injEq, reduceCtorEq] at h <;> subst h <;>
    cases b <;> simp [same, quantity?]

theorem same_number_iff {a b : Value} {p : Quantity} (h : a.quantity? = some p) :
    a.same b = true ↔ ∃ q x, b.quantity? = some q ∧ p.place? = some x ∧ q.place? = some x := by
  rw [same_eq_of_quantity h]
  cases b.quantity? with
  | none => simp
  | some q => simp [Quantity.same_iff]

theorem same_symm_number {a b : Value} {p : Quantity} (ha : a.quantity? = some p)
    (h : a.same b = true) : b.same a = true := by
  obtain ⟨q, x, hb, hp, hq⟩ := (same_number_iff ha).mp h
  exact (same_number_iff hb).mpr ⟨p, x, ha, hq, hp⟩

theorem same_trans_number {a b c : Value} {p : Quantity} (ha : a.quantity? = some p)
    (h : a.same b = true) (h' : b.same c = true) : a.same c = true := by
  obtain ⟨q, x, hb, hp, hq⟩ := (same_number_iff ha).mp h
  obtain ⟨r, y, hc, hq', hr⟩ := (same_number_iff hb).mp h'
  cases hq.symm.trans hq'
  exact (same_number_iff ha).mpr ⟨r, x, hc, hp, hr⟩

mutual

theorem same_symm {a b : Value} (h : a.same b = true) : b.same a = true := by
  cases a with
  | bool _ => exact same_symm_number rfl h
  | int _ => exact same_symm_number rfl h
  | float _ => exact same_symm_number rfl h
  | list xs =>
    cases b with
    | list ys => exact sameAll_symm (by simpa [same] using h)
    | _ => simp [same, quantity?] at h
  | record fs =>
    cases b with
    | record gs => exact sameFields_symm (by simpa [same] using h)
    | _ => simp [same, quantity?] at h
  | datetime s =>
    cases b with
    | datetime t => simpa [same, DateTime.same_comm t s] using h
    | _ => simp [same, quantity?] at h
  | _ => cases b <;> simp [same, quantity?] at h ⊢ <;> exact h.symm

theorem sameAll_symm {as bs : List Value} (h : sameAll as bs = true) : sameAll bs as = true := by
  cases as with
  | nil => cases bs <;> simp [sameAll] at h ⊢
  | cons a as =>
    cases bs with
    | nil => simp [sameAll] at h
    | cons b bs =>
      simp only [sameAll, Bool.and_eq_true] at h ⊢
      exact ⟨same_symm h.1, sameAll_symm h.2⟩

theorem sameFields_symm {fs gs : FieldList} (h : sameFields fs gs = true) :
    sameFields gs fs = true := by
  cases fs with
  | nil => cases gs <;> simp [sameFields] at h ⊢
  | cons f fs =>
    cases gs with
    | nil => simp [sameFields] at h
    | cons g gs =>
      obtain ⟨m, a⟩ := f
      obtain ⟨n, b⟩ := g
      simp only [sameFields, Bool.and_eq_true, decide_eq_true_eq] at h ⊢
      exact ⟨⟨h.1.1.symm, same_symm h.1.2⟩, sameFields_symm h.2⟩

end

mutual

theorem same_trans {a b c : Value} (h : a.same b = true) (h' : b.same c = true) :
    a.same c = true := by
  cases a with
  | bool _ => exact same_trans_number rfl h h'
  | int _ => exact same_trans_number rfl h h'
  | float _ => exact same_trans_number rfl h h'
  | list xs =>
    cases b with
    | list ys =>
      cases c with
      | list zs =>
        simp only [same] at h h' ⊢
        exact sameAll_trans h h'
      | _ => simp [same, quantity?] at h'
    | _ => simp [same, quantity?] at h
  | record fs =>
    cases b with
    | record gs =>
      cases c with
      | record hs =>
        simp only [same] at h h' ⊢
        exact sameFields_trans h h'
      | _ => simp [same, quantity?] at h'
    | _ => simp [same, quantity?] at h
  | datetime s =>
    cases b with
    | datetime t =>
      cases c with
      | datetime u =>
        simp only [same] at h h' ⊢
        exact DateTime.same_trans h h'
      | _ => simp [same, quantity?] at h'
    | _ => simp [same, quantity?] at h
  | _ =>
    -- the other kinds are equal only as they are
    cases b <;> simp [same, quantity?] at h
    try subst h
    exact h'
termination_by structural a

theorem sameAll_trans {as bs cs : List Value} (h : sameAll as bs = true)
    (h' : sameAll bs cs = true) : sameAll as cs = true := by
  cases as with
  | nil =>
    cases bs with
    | nil => exact h'
    | cons b bs => simp [sameAll] at h
  | cons a as =>
    cases bs with
    | nil => simp [sameAll] at h
    | cons b bs =>
      cases cs with
      | nil => simp [sameAll] at h'
      | cons c cs =>
        simp only [sameAll, Bool.and_eq_true] at h h' ⊢
        exact ⟨same_trans h.1 h'.1, sameAll_trans h.2 h'.2⟩
termination_by structural as

theorem sameFields_trans {fs gs hs : FieldList} (h : sameFields fs gs = true)
    (h' : sameFields gs hs = true) : sameFields fs hs = true := by
  cases fs with
  | nil =>
    cases gs with
    | nil => exact h'
    | cons g gs => simp [sameFields] at h
  | cons f fs =>
    cases gs with
    | nil => simp [sameFields] at h
    | cons g gs =>
      cases hs with
      | nil => simp [sameFields] at h'
      | cons k ks =>
        obtain ⟨l, a⟩ := f
        obtain ⟨m, b⟩ := g
        obtain ⟨n, c⟩ := k
        simp only [sameFields, Bool.and_eq_true, decide_eq_true_eq] at h h' ⊢
        exact ⟨⟨h.1.1.trans h'.1.1, same_trans h.1.2 h'.1.2⟩, sameFields_trans h.2 h'.2⟩
termination_by structural fs

end

/-- What is not a number is the same key as one of its payload only, and other values are the
same key where they are equal. -/
theorem sameKey_iff {a b : Value} : a.sameKey b = true ↔
    (∃ p, a = .float (.nan p) ∧ b = .float (.nan p)) ∨ a.same b = true := by
  by_cases h : ∃ p q, a = .float (.nan p) ∧ b = .float (.nan q)
  · obtain ⟨p, q, rfl, rfl⟩ := h
    have hno : (Value.float (.nan p)).same (.float (.nan q)) = false := by
      simp [same, quantity?, Quantity.same, Quantity.place?, Binary64.place?]
    simp [sameKey, hno, eq_comm]
  · have hkey : a.sameKey b = a.same b := by
      unfold sameKey
      split
      · exact absurd ⟨_, _, rfl, rfl⟩ h
      · rfl
    rw [hkey]
    refine ⟨.inr, ?_⟩
    rintro (⟨p, rfl, rfl⟩ | hsame)
    · exact absurd ⟨p, p, rfl, rfl⟩ h
    · exact hsame

theorem not_same_nan (p : Nat) (b : Value) : (Value.float (.nan p)).same b = false := by
  rw [same_eq_of_quantity rfl]
  cases b.quantity? with
  | none => rfl
  | some q =>
    rw [← Bool.not_eq_true, Quantity.same_iff]
    simp [Quantity.place?, Binary64.place?]

theorem sameKey_symm {a b : Value} (h : a.sameKey b = true) : b.sameKey a = true := by
  rw [sameKey_iff] at h ⊢
  rcases h with ⟨p, ha, hb⟩ | h
  · exact .inl ⟨p, hb, ha⟩
  · exact .inr (same_symm h)

theorem sameKey_trans {a b c : Value} (h : a.sameKey b = true) (h' : b.sameKey c = true) :
    a.sameKey c = true := by
  rw [sameKey_iff] at h h' ⊢
  rcases h with ⟨p, rfl, rfl⟩ | h
  · rcases h' with ⟨q, hb, rfl⟩ | h'
    · cases hb
      exact .inl ⟨p, rfl, rfl⟩
    · simp [not_same_nan] at h'
  · rcases h' with ⟨q, rfl, rfl⟩ | h'
    · have hback := same_symm h
      simp [not_same_nan] at hback
    · exact .inr (same_trans h h')

theorem sameKeys_symm {as bs : List Value} (h : sameKeys as bs = true) :
    sameKeys bs as = true := by
  induction as generalizing bs with
  | nil => cases bs <;> simp [sameKeys] at h ⊢
  | cons a as ih =>
    cases bs with
    | nil => simp [sameKeys] at h
    | cons b bs =>
      simp only [sameKeys, Bool.and_eq_true] at h ⊢
      exact ⟨sameKey_symm h.1, ih h.2⟩

theorem sameKeys_trans {as bs cs : List Value} (h : sameKeys as bs = true)
    (h' : sameKeys bs cs = true) : sameKeys as cs = true := by
  induction as generalizing bs cs with
  | nil =>
    cases bs with
    | nil => exact h'
    | cons b bs => simp [sameKeys] at h
  | cons a as ih =>
    cases bs with
    | nil => simp [sameKeys] at h
    | cons b bs =>
      cases cs with
      | nil => simp [sameKeys] at h'
      | cons c cs =>
        simp only [sameKeys, Bool.and_eq_true] at h h' ⊢
        exact ⟨sameKey_trans h.1 h'.1, ih h.2 h'.2⟩

theorem sameKeys_append {as bs : List Value} (h : as.length = bs.length) (a b : Value) :
    sameKeys (as ++ [a]) (bs ++ [b]) = (sameKeys as bs && a.sameKey b) := by
  induction as generalizing bs with
  | nil =>
    obtain rfl : bs = [] := List.eq_nil_of_length_eq_zero h.symm
    simp [sameKeys]
  | cons a' as ih =>
    cases bs with
    | nil => cases h
    | cons b' bs => simp [sameKeys, ih (Nat.succ.inj h), Bool.and_assoc]

theorem isNull_iff {v : Value} : v.isNull = true ↔ v = .null := by
  cases v <;> simp [isNull]

theorem sameKey_self {v : Value} {type : ColumnType} (h : v.conforms type = true) :
    v.sameKey v = true := by
  cases v with
  | float x =>
    cases x with
    | infinity negative =>
      cases negative <;>
        simp [sameKey, same, quantity?, Quantity.same, Quantity.place?, Binary64.place?]
    | _ => simp [sameKey, same, quantity?, Quantity.same, Quantity.place?, Binary64.place?]
  | datetime t => cases ha : t.isAware <;> simp [sameKey, same, DateTime.same, ha]
  | time _ | duration _ | list _ | record _ => simp [conforms] at h
  | _ => simp [sameKey, same, quantity?]

/-- A null is the same key as nulls only. -/
theorem isNull_eq_of_sameKey {v w : Value} (h : v.sameKey w = true) : v.isNull = w.isNull := by
  cases v <;> cases w <;> first | rfl | simp [sameKey, same, quantity?] at h

theorem sameKeys_self {vs : List Value} (h : ∀ v ∈ vs, v.sameKey v = true) :
    sameKeys vs vs = true := by
  induction vs with
  | nil => rfl
  | cons v vs ih => simp [sameKeys, h v, ih fun w hw => h w (by simp [hw])]

end Value
end OrderedRelations
