import Mathlib
import OrderedRelations.Proofs.Calendar.Order
import OrderedRelations.Proofs.Number.Representable
import OrderedRelations.Proofs.Window.FrameOrder
import OrderedRelations.Proofs.Window.PlainFrames

/-!
# Durations beside days

A duration beside days becomes a double that counts days, and the double is added to the count of a
day. Both steps round, so the point that is reached may be a whole day where the exact one lies some
microseconds beside it. It is never on the wrong side of a day by more than 40 microseconds, and
frames whose durations are not as close as that to whole days hold the days that they declare.
-/

namespace OrderedRelations

/-- The point that a duration is taken to reach from a day: the duration is rounded as days, and its
sum with the count of the day is rounded again. -/
def Moves (c m : ℤ) (r : ℚ) : Prop :=
  ∃ s, Binary64.RoundsTo .double (m / dayMicroseconds) s ∧ Binary64.RoundsTo .double (c + s) r

/-- Two counts of days of the calendar, signed alike. -/
structure Counts (c n : ℤ) : Prop where
  left : |c| ≤ 3652059
  right : |n| ≤ 3652059
  apart : |n - c| ≤ 3652059

theorem Counts.neg {c n : ℤ} (h : Counts c n) : Counts (-c) (-n) := by
  refine ⟨by rw [abs_neg]; exact h.left, by rw [abs_neg]; exact h.right, ?_⟩
  rw [neg_sub_neg, abs_sub_comm]
  exact h.apart

namespace Moves

open Binary64

variable {c m n : ℤ} {r : ℚ}

theorem exists_moves (c m : ℤ) : ∃ r, Moves c m r := by
  obtain ⟨s, hs⟩ := exists_roundsTo .double (m / dayMicroseconds)
  obtain ⟨r, hr⟩ := exists_roundsTo .double (c + s)
  exact ⟨r, s, hs, hr⟩

theorem unique {r' : ℚ} (h : Moves c m r) (h' : Moves c m r') : r = r' := by
  obtain ⟨s, hs, hr⟩ := h
  obtain ⟨s', hs', hr'⟩ := h'
  rw [hs'.unique (by decide) hs] at hr'
  exact hr.unique (by decide) hr'

/-- No duration leaves a day where it is. -/
theorem zero (hc : |c| ≤ 3652059) : Moves c 0 c := by
  obtain ⟨s, hs⟩ := exists_roundsTo .double 0
  obtain ⟨r, hr⟩ := exists_roundsTo .double c
  have hself := hr.eq_intCast (hc.trans (by norm_num))
  refine ⟨0, ?_, ?_⟩
  · rw [hs.zero] at hs
    rwa [Int.cast_zero, zero_div]
  · rw [hself] at hr
    rwa [add_zero]

theorem neg (h : Moves c m r) : Moves (-c) (-m) (-r) := by
  obtain ⟨s, hs, hr⟩ := h
  refine ⟨-s, by simpa [neg_div] using hs.neg, ?_⟩
  have hsum : ((-c : ℤ) : ℚ) + -s = -(c + s) := by
    push_cast
    ring
  rw [hsum]
  exact hr.neg

/-- Days that the exact point passes or meets are not passed by less. -/
theorem intCast_le (h : Moves c m r) (hn : Counts c n)
    (hle : n * dayMicroseconds ≤ c * dayMicroseconds + m) : n ≤ r := by
  obtain ⟨s, hs, hr⟩ := h
  obtain ⟨-, hright, hapart⟩ := hn
  have hquotient : ((n - c : ℤ) : ℚ) ≤ m / dayMicroseconds := by
    rw [le_div_iff₀ (by norm_num [dayMicroseconds])]
    exact_mod_cast (by simp only [dayMicroseconds] at hle ⊢; omega)
  have hs' := hs.intCast_le hquotient (hapart.trans (by norm_num))
  refine hr.intCast_le ?_ (hright.trans (by norm_num))
  push_cast at hs'
  linarith

theorem le_intCast (h : Moves c m r) (hn : Counts c n)
    (hle : c * dayMicroseconds + m ≤ n * dayMicroseconds) : r ≤ n := by
  have hneg := h.neg.intCast_le hn.neg (by linarith)
  push_cast at hneg
  linarith

/-- Days that the exact point passes by more than 40 microseconds are passed. -/
theorem intCast_lt (h : Moves c m r) (hn : Counts c n)
    (hlt : n * dayMicroseconds + 40 < c * dayMicroseconds + m) : n < r := by
  obtain ⟨s, hs, hr⟩ := h
  obtain ⟨-, hright, hapart⟩ := hn
  have hright' : |(n : ℚ)| ≤ 3652059 := by exact_mod_cast hright
  have hapart' : |(n - c : ℚ)| ≤ 3652059 := by exact_mod_cast hapart
  rw [abs_le] at hright' hapart'
  -- up to 2²² days, each rounding is off by 2⁻³² of a day at most, 20 microseconds
  have herror : ∀ {x y : ℚ}, RoundsTo .double x y → |x| ≤ 2 ^ (22 : ℤ) → |y - x| ≤ 2 ^ (-32 : ℤ) := by
    intro x y hxy hx
    have hclose := hxy.abs_sub_le_of_le (by decide) hx (by decide)
    norm_num [BinaryFormat.double] at hclose ⊢
    exact hclose
  have hquotient : (n : ℚ) - c + 41 / 86400000000 ≤ m / dayMicroseconds := by
    have hlt' : (n : ℚ) * 86400000000 + 41 ≤ c * 86400000000 + m := by
      exact_mod_cast (by simp only [dayMicroseconds] at hlt; omega)
    rw [le_div_iff₀ (by norm_num [dayMicroseconds])]
    norm_num [dayMicroseconds]
    linarith
  obtain ⟨s', hs'⟩ := exists_roundsTo .double ((n : ℚ) - c + 41 / 86400000000)
  have hless := hs'.mono (by decide) hs hquotient
  have hclose := herror hs' (by rw [abs_le]; constructor <;> norm_num <;> linarith)
  rw [abs_le] at hclose
  have hsum : (n : ℚ) + 41 / 86400000000 - 2 ^ (-32 : ℤ) ≤ c + s := by linarith
  obtain ⟨r', hr'⟩ := exists_roundsTo .double ((n : ℚ) + 41 / 86400000000 - 2 ^ (-32 : ℤ))
  have hless' := hr'.mono (by decide) hr hsum
  have hclose' := herror hr' (by rw [abs_le]; constructor <;> norm_num <;> linarith)
  rw [abs_le] at hclose'
  norm_num at hclose'
  linarith

theorem lt_intCast (h : Moves c m r) (hn : Counts c n)
    (hlt : c * dayMicroseconds + m + 40 < n * dayMicroseconds) : r < n := by
  have hneg := h.neg.intCast_lt hn.neg (by linarith)
  push_cast at hneg
  linarith

end Moves

/-- A bound whose offset, if any, is a duration as long as one may be. -/
def FrameBound.Timed (b : FrameBound) : Prop :=
  ∀ o, b.offset? = some o → ∃ m, o = .duration m ∧ Duration.inRange m = true

namespace FrameExtent

/-- Beside days, a duration leads to the point that it moves a day to. -/
theorem exists_target_moves {c m : ℤ} (hc : |c| ≤ 3652059) (hm : Duration.inRange m = true)
    (backward : Bool) : ∃ t r, target .date (.whole c) backward (.duration m) = .ok t ∧
      t.place? = some (0, r) ∧ Moves c (if backward then -m else m) r := by
  have hdays : (Offset.duration m).inUnitsOf .date = .real (Binary64.ofRat (m / dayMicroseconds)) := by
    rw [Offset.inUnitsOf, Rat.mkRat_eq_div]
  have hquotient : |(m : ℚ) / dayMicroseconds| ≤ 2 ^ (30 : ℤ) := by
    have hlength := Duration.abs_le_of_inRange hm
    simp only [dayMicroseconds] at hlength ⊢
    rw [abs_div, Nat.abs_cast, div_le_iff₀ (by norm_num)]
    have hlength' : |(m : ℚ)| ≤ 10 ^ 9 * 86400000000 := by exact_mod_cast hlength
    exact hlength'.trans (by norm_num)
  obtain ⟨s, hs, hround⟩ := Binary64.exists_ofRat hquotient (by decide) (by decide)
  have hsize : |(c : ℚ)| ≤ 3652059 := by exact_mod_cast hc
  have hsize' : |s| ≤ 2 ^ 30 := by
    obtain ⟨hlow, hhigh⟩ := abs_le.mp hquotient
    have hlow' := hround.intCast_le (n := -2 ^ 30) (by push_cast; exact_mod_cast hlow) (by decide)
    have hhigh' := hround.le_intCast (n := 2 ^ 30) (by push_cast; exact_mod_cast hhigh) (by decide)
    rw [abs_le]
    exact ⟨by exact_mod_cast hlow', by exact_mod_cast hhigh'⟩
  obtain ⟨x, hx, hxc, hdouble⟩ := Binary64.exists_ofInt (hc.trans (by norm_num))
  have hdouble' := Binary64.isDouble_ofRat (m / dayMicroseconds)
  rw [abs_le] at hsize hsize'
  cases backward with
  | false =>
    obtain ⟨r, hr, hsum⟩ := Binary64.exists_add (k := 31) hxc hs hdouble hdouble'
      (by rw [abs_le]; constructor <;> norm_num <;> linarith) (by decide) (by decide)
    refine ⟨.real (x.add (Binary64.ofRat (m / dayMicroseconds))), r, ?_,
      Binary64.place?_of_toRat? hr, s, hround, hsum⟩
    simp [target, hdays, Offset.quantity?, Quantity.add?, Quantity.combine?, Quantity.toBinary64?, hx]
  | true =>
    obtain ⟨r, hr, hsum⟩ := Binary64.exists_add (k := 31) hxc (Binary64.toRat?_neg hs) hdouble
      hdouble'.neg (by rw [abs_le]; constructor <;> norm_num <;> linarith) (by decide) (by decide)
    refine ⟨.real (x.sub (Binary64.ofRat (m / dayMicroseconds))), r, ?_,
      Binary64.place?_of_toRat? hr, -s, by simpa [neg_div] using hround.neg, hsum⟩
    simp [target, hdays, Offset.quantity?, Quantity.sub?, Quantity.combine?, Quantity.toBinary64?, hx]

end FrameExtent

/-- Days are counted alike, whatever the direction of the key. -/
theorem OrderKey.counts_signed (k : OrderKey) {v w : Value} (hv : v.conforms .date = true)
    (hw : w.conforms .date = true) (hnv : v.isNull = false) (hnw : w.isNull = false) :
    Counts (k.signed v) (k.signed w) := by
  have hday : ∀ {u : Value}, u.conforms .date = true → u.isNull = false →
      1 ≤ u.point ∧ u.point ≤ 3652059 := by
    intro u hu hnull
    cases u with
    | date d =>
      have hmem := d.ordinal_mem
      simp only [Value.point]
      omega
    | null => simp [Value.isNull] at hnull
    | _ => simp [Value.conforms] at hu
  obtain ⟨hv₁, hv₂⟩ := hday hv hnv
  obtain ⟨hw₁, hw₂⟩ := hday hw hnw
  simp only [signed]
  constructor <;> rw [abs_le] <;> split <;> omega

namespace Relation
open FrameExtent (Measured)

variable {r : Relation} {k : OrderKey} {members : List ℕ} {frame : FrameSpec} {i : ℕ}
  (h : Measured k .date (members.map (r.cell k.column)))
include h

theorem counts_signed {i j : ℕ} (hi : i ∈ members) (hj : j ∈ members)
    (hni : (r.cell k.column i).isNull = false) (hnj : (r.cell k.column j).isNull = false) :
    Counts (k.signed (r.cell k.column i)) (k.signed (r.cell k.column j)) :=
  k.counts_signed (h.typed _ (List.mem_map_of_mem hi)) (h.typed _ (List.mem_map_of_mem hj)) hni hnj

/-- Among days, a row stands before another where its day is counted less. -/
theorem keysBefore_eq_signed {i j : ℕ} (hi : i ∈ members) (hj : j ∈ members)
    (hni : (r.cell k.column i).isNull = false) (hnj : (r.cell k.column j).isNull = false) :
    r.keysBefore [k] i j = decide (k.signed (r.cell k.column i) < k.signed (r.cell k.column j)) := by
  rw [← h.less_eq_keysBefore hi hj hni hnj, h.coordinateOf_eq (.inr (.inl rfl))
      (List.mem_map_of_mem hi) hni, h.coordinateOf_eq (.inr (.inl rfl)) (List.mem_map_of_mem hj) hnj,
    Quantity.less_whole]

variable (hi : i ∈ members) (hnull : (r.cell k.column i).isNull = false)
include hi hnull

/-- A bound with a duration cuts at the point that the duration moves the day of the row to. -/
theorem exists_point {b : FrameBound} (htimed : b.Timed) {o : Offset} (ho : b.offset? = some o)
    (passes : Quantity → Quantity → Bool) (peers : ℕ → Bool) :
    ∃ d t x, b.distance? .datetime = some d ∧ t.place? = some (0, x) ∧
      Moves (k.signed (r.cell k.column i)) d x ∧
      r.boundTest k .date passes peers b i =
        .ok fun j => k.inFront .date (passes t) (r.cell k.column j) := by
  obtain ⟨m, rfl, hm⟩ := htimed o ho
  have hv := List.mem_map_of_mem (f := r.cell k.column) hi
  have hcoord := h.coordinateOf_eq (.inr (.inl rfl)) hv hnull
  have hsize := (counts_signed h hi hi hnull hnull).left
  cases b with
  | preceding o =>
    cases ho
    obtain ⟨t, x, htarget, hplace, hmoves⟩ := FrameExtent.exists_target_moves hsize hm true
    refine ⟨-m, t, x, rfl, hplace, by simpa using hmoves, ?_⟩
    simp only [boundTest, hnull, hcoord, htarget, Result.map_ok]
  | following o =>
    cases ho
    obtain ⟨t, x, htarget, hplace, hmoves⟩ := FrameExtent.exists_target_moves hsize hm false
    refine ⟨m, t, x, rfl, hplace, by simpa using hmoves, ?_⟩
    simp only [boundTest, hnull, hcoord, htarget, Result.map_ok]
  | _ => cases ho

/-- In front of a frame stand the days in front of the point that its start moves the row to. -/
theorem exists_ahead (htimed : frame.start.Timed) {d : ℤ}
    (hd : frame.start.distance? .datetime = some d) :
    ∃ x test, Moves (k.signed (r.cell k.column i)) d x ∧
      r.boundTest k .date (fun t c => c.less t) (r.peerTests [k] frame i).ahead frame.start i =
        .ok test ∧
      ∀ j ∈ members, (r.cell k.column j).isNull = false →
        (test j = true ↔ (k.signed (r.cell k.column j) : ℚ) < x) := by
  cases ho : frame.start.offset? with
  | some o =>
    obtain ⟨d', t, x, hd', ht, hmoves, htest⟩ := exists_point h hi hnull htimed ho
      (fun t c => c.less t) (r.peerTests [k] frame i).ahead
    cases hd.symm.trans hd'
    refine ⟨x, _, hmoves, htest, fun j hj hnj => ?_⟩
    have hcoord := h.coordinateOf_eq (.inr (.inl rfl)) (List.mem_map_of_mem hj) hnj
    simp only [OrderKey.inFront, hnj, Bool.false_eq_true, if_false, hcoord,
      Quantity.less_of_place (Quantity.place?_whole _) ht, decide_eq_true_eq]
  | none =>
    have hb : frame.start = .currentRow := by
      cases hb : frame.start <;> simp [hb, FrameBound.distance?, FrameBound.offset?] at hd ho ⊢
    rw [hb] at hd
    cases hd
    refine ⟨k.signed (r.cell k.column i), _, .zero (counts_signed h hi hi hnull hnull).left,
      FrameExtent.boundTest_of_plain ho i, fun j hj hnj => ?_⟩
    simp [peerTests, hb, keysBefore_eq_signed h hj hi hnj hnull]

/-- Up to its end stand the days that are not behind the point that the end moves the row to. -/
theorem exists_through (htimed : frame.stop.Timed) {d : ℤ}
    (hd : frame.stop.distance? .datetime = some d) :
    ∃ x test, Moves (k.signed (r.cell k.column i)) d x ∧
      r.boundTest k .date (fun t c => !t.less c) (r.peerTests [k] frame i).through frame.stop i =
        .ok test ∧
      ∀ j ∈ members, (r.cell k.column j).isNull = false →
        (test j = true ↔ (k.signed (r.cell k.column j) : ℚ) ≤ x) := by
  cases ho : frame.stop.offset? with
  | some o =>
    obtain ⟨d', t, x, hd', ht, hmoves, htest⟩ := exists_point h hi hnull htimed ho
      (fun t c => !t.less c) (r.peerTests [k] frame i).through
    cases hd.symm.trans hd'
    refine ⟨x, _, hmoves, htest, fun j hj hnj => ?_⟩
    have hcoord := h.coordinateOf_eq (.inr (.inl rfl)) (List.mem_map_of_mem hj) hnj
    simp only [OrderKey.inFront, hnj, Bool.false_eq_true, if_false, hcoord,
      Quantity.less_of_place ht (Quantity.place?_whole _), Bool.not_eq_true', decide_eq_false_iff_not,
      not_lt]
  | none =>
    have hb : frame.stop = .currentRow := by
      cases hb : frame.stop <;> simp [hb, FrameBound.distance?, FrameBound.offset?] at hd ho ⊢
    rw [hb] at hd
    cases hd
    refine ⟨k.signed (r.cell k.column i), _, .zero (counts_signed h hi hi hnull hnull).left,
      FrameExtent.boundTest_of_plain ho i, fun j hj hnj => ?_⟩
    simp [peerTests, hb, keysBefore_eq_signed h hi hj hnull hnj]

/-- A frame starts in front of the days that its start does not move the row behind. -/
theorem exists_starts (htimed : frame.start.Timed) (hstart : frame.start ≠ .unboundedFollowing) :
    ∃ test, r.boundTest k .date (fun t c => c.less t) (r.peerTests [k] frame i).ahead frame.start i =
        .ok test ∧
      ∀ j ∈ members, (r.cell k.column j).isNull = false → (test j = false ↔
        ∀ d, frame.start.distance? .datetime = some d →
          ∃ x, Moves (k.signed (r.cell k.column i)) d x ∧ x ≤ k.signed (r.cell k.column j)) := by
  cases hd : frame.start.distance? .datetime with
  | none =>
    have hb : frame.start = .unboundedPreceding := by
      cases hb : frame.start <;> simp [hb, FrameBound.distance?] at hd hstart ⊢
    exact ⟨_, FrameExtent.boundTest_of_plain (by rw [hb]; rfl) i, fun j _ _ => by simp [peerTests, hb]⟩
  | some d =>
    obtain ⟨x, test, hmoves, htest, hahead⟩ := exists_ahead h hi hnull htimed hd
    refine ⟨test, htest, fun j hj hnj => ?_⟩
    rw [← Bool.not_eq_true, hahead j hj hnj, not_lt]
    constructor
    · rintro hle d' ⟨⟩
      exact ⟨x, hmoves, hle⟩
    · intro hall
      obtain ⟨x', hmoves', hle⟩ := hall d rfl
      rwa [hmoves.unique hmoves']

/-- A frame ends behind the days that its end does not move the row in front of. -/
theorem exists_stops (htimed : frame.stop.Timed) (hstop : frame.stop ≠ .unboundedPreceding) :
    ∃ test, r.boundTest k .date (fun t c => !t.less c) (r.peerTests [k] frame i).through frame.stop
        i = .ok test ∧
      ∀ j ∈ members, (r.cell k.column j).isNull = false → (test j = true ↔
        ∀ d, frame.stop.distance? .datetime = some d →
          ∃ x, Moves (k.signed (r.cell k.column i)) d x ∧ k.signed (r.cell k.column j) ≤ x) := by
  cases hd : frame.stop.distance? .datetime with
  | none =>
    have hb : frame.stop = .unboundedFollowing := by
      cases hb : frame.stop <;> simp [hb, FrameBound.distance?] at hd hstop ⊢
    exact ⟨_, FrameExtent.boundTest_of_plain (by rw [hb]; rfl) i, fun j _ _ => by simp [peerTests, hb]⟩
  | some d =>
    obtain ⟨x, test, hmoves, htest, hthrough⟩ := exists_through h hi hnull htimed hd
    refine ⟨test, htest, fun j hj hnj => ?_⟩
    rw [hthrough j hj hnj]
    constructor
    · rintro hle d' ⟨⟩
      exact ⟨x, hmoves, hle⟩
    · intro hall
      obtain ⟨x', hmoves', hle⟩ := hall d rfl
      rwa [hmoves.unique hmoves']

end Relation

namespace FrameSpec

variable {frame : FrameSpec} {c n : ℤ}

/-- Whether a frame holds the day counted `n` as seen from the day counted `c`: its bounds do not move
the one past the other. -/
def Reaches (frame : FrameSpec) (c n : ℤ) : Prop :=
  (∀ d, frame.start.distance? .datetime = some d → ∃ x, Moves c d x ∧ x ≤ n) ∧
    ∀ d, frame.stop.distance? .datetime = some d → ∃ x, Moves c d x ∧ n ≤ x

/-- Whether the distance between two days, in microseconds, lies between the bounds of a frame, up to
some slack. -/
def Encloses (frame : FrameSpec) (slack c n : ℤ) : Prop :=
  (∀ d, frame.start.distance? .datetime = some d → d ≤ (n - c) * dayMicroseconds + slack) ∧
    ∀ d, frame.stop.distance? .datetime = some d → (n - c) * dayMicroseconds ≤ d + slack

/-- No bound lies within 40 microseconds of a whole number of days without being one. -/
def Clear (frame : FrameSpec) : Prop :=
  ∀ d, frame.start.distance? .datetime = some d ∨ frame.stop.distance? .datetime = some d →
    d % dayMicroseconds = 0 ∨ 40 < d % dayMicroseconds ∧ d % dayMicroseconds < dayMicroseconds - 40

/-- A frame reaches the days that it encloses. -/
theorem Encloses.reaches (h : frame.Encloses 0 c n) (hn : Counts c n) : frame.Reaches c n := by
  refine ⟨fun d hd => ?_, fun d hd => ?_⟩
  · obtain ⟨x, hx⟩ := Moves.exists_moves c d
    have hle := h.1 d hd
    refine ⟨x, hx, hx.le_intCast hn ?_⟩
    rw [sub_mul] at hle
    linarith
  · obtain ⟨x, hx⟩ := Moves.exists_moves c d
    have hle := h.2 d hd
    refine ⟨x, hx, hx.intCast_le hn ?_⟩
    rw [sub_mul] at hle
    linarith

/-- It reaches no day that it misses by more than 40 microseconds. -/
theorem Reaches.encloses (h : frame.Reaches c n) (hn : Counts c n) : frame.Encloses 40 c n := by
  refine ⟨fun d hd => ?_, fun d hd => ?_⟩
  · obtain ⟨x, hx, hle⟩ := h.1 d hd
    by_contra hfar
    refine hle.not_gt (hx.intCast_lt hn ?_)
    rw [not_le, sub_mul] at hfar
    linarith
  · obtain ⟨x, hx, hle⟩ := h.2 d hd
    by_contra hfar
    refine hle.not_gt (hx.lt_intCast hn ?_)
    rw [not_le, sub_mul] at hfar
    linarith

/-- What a clear frame encloses with 40 microseconds of slack it encloses without. -/
theorem Clear.encloses (h : frame.Clear) (hslack : frame.Encloses 40 c n) :
    frame.Encloses 0 c n := by
  refine ⟨fun d hd => ?_, fun d hd => ?_⟩
  · have hclear := h d (.inl hd)
    have hle := hslack.1 d hd
    simp only [dayMicroseconds] at hclear hle ⊢
    omega
  · have hclear := h d (.inr hd)
    have hle := hslack.2 d hd
    simp only [dayMicroseconds] at hclear hle ⊢
    omega

end FrameSpec

namespace FrameExtent

variable {r : Relation} {k : OrderKey} {members : List ℕ} {frame : FrameSpec}

/-- The tests of a frame pass the days that it reaches. -/
theorem exists_dayTests (h : Measured k .date (members.map (r.cell k.column)))
    (htype : r.schema.typeOf k.column = .ok .date) (hunit : frame.unit = .range)
    (hstart : frame.start ≠ .unboundedFollowing) (hstop : frame.stop ≠ .unboundedPreceding)
    (htimed : frame.start.Timed) (htimed' : frame.stop.Timed) {i : ℕ} (hi : i ∈ members) :
    ∃ tests, r.frameTests [k] frame i = .ok tests ∧ ∀ j ∈ members,
      (r.cell k.column i).isNull = false → (r.cell k.column j).isNull = false →
        (tests.ahead j = false ∧ tests.through j = true ↔
          frame.Reaches (k.signed (r.cell k.column i)) (k.signed (r.cell k.column j))) := by
  rw [frameTests_eq htype hunit]
  cases hnull : (r.cell k.column i).isNull with
  | true =>
    have hpeers : ∀ passes peers b, r.boundTest k .date passes peers b i = .ok peers := by
      intro passes peers b
      cases b <;> simp only [Relation.boundTest, hnull]
    rw [hpeers, hpeers]
    refine ⟨_, rfl, fun j _ hni => ?_⟩
    cases hni
  | false =>
    obtain ⟨ahead, hahead, hstarts⟩ := Relation.exists_starts h hi hnull htimed hstart
    obtain ⟨through, hthrough, hstops⟩ := Relation.exists_stops h hi hnull htimed' hstop
    rw [hahead, hthrough]
    exact ⟨_, rfl, fun j hj _ hnj => and_congr (hstarts j hj hnj) (hstops j hj hnj)⟩

variable {partitionBy : List String} {parts : List Partition} {p : Partition}

/-- Over every partition arranged by one key of days, a range frame of durations holds the days that
it reaches by rounded counts of days. These are the days that lie between its durations, exactly
measured, and none that lies more than 40 microseconds outside. So it holds exactly the days that it
declares unless one of its durations comes that close to a whole number of days. -/
theorem duration_spans (hr : r.WellFormed)
    (hparts : Arrangement.positions r partitionBy [k] = .ok parts) (hp : p ∈ parts)
    (htype : r.schema.typeOf k.column = .ok .date) {start stop : FrameBound}
    (hmake : FrameSpec.make .range start stop = .ok frame) (htimed : start.Timed)
    (htimed' : stop.Timed) :
    ∃ spans, FrameExtent.spans r.schema [k] (Arrangement.rowsAt r p.positions) frame = .ok spans ∧
      spans.length = p.positions.length ∧
      ∀ (n : ℕ) s, spans[n]? = some s → ∀ (m i j : ℕ), p.positions[n]? = some i →
        p.positions[m]? = some j → (r.cell k.column i).isNull = false →
        (r.cell k.column j).isNull = false → ∀ day day' : ℤ,
          k.signed (r.cell k.column i) = day → k.signed (r.cell k.column j) = day' →
            (s.first ≤ m ∧ (m : ℤ) < s.stop ↔ frame.Reaches day day') ∧
            (frame.Encloses 0 day day' → frame.Reaches day day') ∧
            (frame.Reaches day day' → frame.Encloses 40 day day') ∧
            (frame.Clear → (frame.Reaches day day' ↔ frame.Encloses 0 day day')) := by
  obtain ⟨hstart, hstop, rfl⟩ := FrameSpec.make_eq_ok hmake
  have hnan : r.NaNFree [k] := naNFree_of_whole hr htype (.inr (.inl rfl))
  obtain ⟨ho, hin, hc, hordered⟩ := inOrder_of_positions hr hnan hparts hp
  have hmeasured := measured_of_positions hr hnan hparts hp htype rfl
  have hmeasures : Window.MeasuresOrder r.schema [k] ⟨.range, start, stop⟩ :=
    fun _ _ => ⟨k, .date, rfl, htype, rfl, fun _ _ => rfl⟩
  have hdays := fun i => @exists_dayTests r k p.positions ⟨.range, start, stop⟩ hmeasured htype rfl
    hstart hstop htimed htimed' i
  have hrows : ∀ i ∈ p.positions, ∃ s : Span,
      ((r.frameTests [k] ⟨.range, start, stop⟩ i).map fun tests => tests.span p.positions) = .ok s ∧
        ∃ tests, r.frameTests [k] ⟨.range, start, stop⟩ i = .ok tests ∧
          s = tests.span p.positions := by
    intro i hi
    obtain ⟨tests, htests, -⟩ := hdays i hi
    exact ⟨_, by rw [htests, Result.map_ok], tests, htests, rfl⟩
  obtain ⟨spans, hspans, hall⟩ := Result.exists_mapM hrows
  refine ⟨spans, ?_, hall.length_eq.symm, ?_⟩
  · rwa [spans_of_positions hr hnan hparts hp hmeasures (.inl rfl)]
  rintro n s hs m i j hn hm hni hnj _ _ rfl rfl
  obtain ⟨tests, htests, rfl⟩ : ∃ tests, r.frameTests [k] ⟨.range, start, stop⟩ i = .ok tests ∧
      s = tests.span p.positions := by
    obtain ⟨hn', rfl⟩ := List.getElem?_eq_some_iff.mp hn
    obtain ⟨hs', rfl⟩ := List.getElem?_eq_some_iff.mp hs
    exact (List.forall₂_iff_get.mp hall).2 n hn' hs'
  obtain ⟨tests', htests', hpass⟩ := hdays i (List.mem_of_getElem? hn)
  cases htests.symm.trans htests'
  have hcounts := Relation.counts_signed hmeasured (List.mem_of_getElem? hn)
    (List.mem_of_getElem? hm) hni hnj
  obtain ⟨hahead, hthrough⟩ := leads_frameTests hr hnan ho hin hc hordered hmeasures htests
  refine ⟨?_, fun h => h.reaches hcounts, fun h => h.encloses hcounts, fun hclear =>
    ⟨fun h => hclear.encloses (h.encloses hcounts), fun h => h.reaches hcounts⟩⟩
  rw [FrameTests.span, Int.ofNat_le, Int.ofNat_lt, ← Nat.not_lt, hahead.lt_countP_iff hm,
    hthrough.lt_countP_iff hm, Bool.not_eq_true]
  exact hpass j (List.mem_of_getElem? hm) hni hnj

/-- Two days, one after the other. -/
def nights : Relation :=
  ⟨⟨[⟨"evening", .date, by decide⟩], by decide⟩,
    [[.date ⟨2024, 1, 1, by decide⟩], [.date ⟨2024, 1, 2, by decide⟩]]⟩

def byEvening : OrderKey := ⟨"evening", .asc, .last⟩

theorem positions_nights :
    Arrangement.positions nights [] [byEvening] = .ok [⟨[], [0, 1]⟩] := by cbv

/-- The day before and 12 hours more. -/
def dayAndHalf : FrameSpec := ⟨.range, .preceding (.duration 129600000000), .currentRow⟩

/-- A microsecond less than the day before. -/
def almostADay : FrameSpec := ⟨.range, .preceding (.duration 86399999999), .currentRow⟩

theorem make_preceding {m : ℤ} (h : FrameBound.isAfter (1, (Duration.inDays m).neg) (1, .zero) = false) :
    FrameSpec.make .range (.preceding (.duration m)) .currentRow =
      .ok ⟨.range, .preceding (.duration m), .currentRow⟩ :=
  FrameSpec.make_eq_ok_iff.mpr ⟨by simp, ⟨_, _, rfl, rfl, h⟩, nofun, rfl⟩

theorem timed_preceding {m : ℤ} (h : Duration.inRange m = true) :
    (FrameBound.preceding (.duration m)).Timed := by
  rintro o ⟨⟩
  exact ⟨m, rfl, h⟩

theorem duration_spans_nights :
    FrameSpec.make .range (.preceding (.duration 129600000000)) .currentRow = .ok dayAndHalf ∧
    ∃ spans s, FrameExtent.spans nights.schema [byEvening] (Arrangement.rowsAt nights [0, 1])
      dayAndHalf = .ok spans ∧ spans[1]? = some s ∧ s.first ≤ 0 ∧ 0 < s.stop := by
  have hmake : FrameSpec.make .range (.preceding (.duration 129600000000)) .currentRow =
      .ok dayAndHalf := make_preceding (by decide +kernel)
  obtain ⟨spans, hspans, hlength, hdays⟩ := duration_spans (by decide) positions_nights (.head _) rfl
    hmake (timed_preceding (by decide)) nofun
  have hsecond : 1 < spans.length := by
    rw [hlength]
    decide
  have hs : spans[1]? = some spans[1] := List.getElem?_eq_getElem hsecond
  have henclosed : dayAndHalf.Encloses 0 738887 738886 := by
    constructor
    · rintro d ⟨⟩
      decide
    · rintro d ⟨⟩
      decide
  obtain ⟨hcovers, hreaches, -⟩ := hdays 1 _ hs 0 1 0 rfl rfl rfl rfl 738887 738886 (by decide)
    (by decide)
  exact ⟨hmake, spans, _, hspans, hs, hcovers.mpr (hreaches henclosed)⟩

theorem target_almostADay {c : ℤ} {x t : Binary64} (hc : Binary64.ofInt? c = some x)
    (ht : x.sub (Binary64.ofRat (mkRat 86399999999 86400000000)) = t) :
    target .date (.whole c) true (.duration 86399999999) = .ok (.real t) := by
  simp [target, Offset.inUnitsOf, Offset.quantity?, Quantity.sub?, Quantity.combine?,
    Quantity.toBinary64?, dayMicroseconds, hc, ht]

/-- A frame from a microsecond less than the day before holds the day before. -/
theorem spans_almostADay :
    FrameSpec.make .range (.preceding (.duration 86399999999)) .currentRow = .ok almostADay ∧
    Arrangement.positions nights [] [byEvening] = .ok [⟨[], [0, 1]⟩] ∧
    FrameExtent.spans nights.schema [byEvening] (Arrangement.rowsAt nights [0, 1]) almostADay =
      .ok [⟨0, 1⟩, ⟨0, 2⟩] ∧
    ¬ almostADay.Encloses 0 (byEvening.signed (nights.cell "evening" 1))
      (byEvening.signed (nights.cell "evening" 0)) := by
  have hmake : FrameSpec.make .range (.preceding (.duration 86399999999)) .currentRow =
      .ok almostADay := make_preceding (by decide +kernel)
  have hdays : byEvening.signed (nights.cell "evening" 1) = 738887 ∧
      byEvening.signed (nights.cell "evening" 0) = 738886 := by decide
  refine ⟨hmake, positions_nights, ?_, fun henclosed => ?_⟩
  · have hfirst : target .date (.whole 738886) true (.duration 86399999999) =
        .ok (.real (.number 738885)) :=
      target_almostADay (x := .number 738886) (by decide +kernel) (by decide +kernel)
    have hsecond : target .date (.whole 738887) true (.duration 86399999999) =
        .ok (.real (.number 738886)) :=
      target_almostADay (x := .number 738887) (by decide +kernel) (by decide +kernel)
    have hbelow : countBelow #[.whole 738886, .whole 738887] (.real (.number 738885)) = 0 := by cbv
    have hbelow' : countBelow #[.whole 738886, .whole 738887] (.real (.number 738886)) = 0 := by cbv
    have hkeys : (Arrangement.rowsAt nights [0, 1]).mapM (orderValues nights.schema [byEvening]) =
        .ok nights.rows := by cbv
    have hpeers : Peers.bounds nights.rows = .ok [⟨0, 1⟩, ⟨1, 2⟩] := by cbv
    have hsigned : signedCoordinates .date byEvening.descending
        (nights.rows.map fun key => Arrangement.valueAt key 0) =
          .ok [.whole 738886, .whole 738887] := by cbv
    have htype : nights.schema.typeOf byEvening.column = .ok .date := rfl
    have hoffsets : almostADay.hasOffsets = true := rfl
    have hunit : almostADay.unit = .range := rfl
    simp only [spans, offsetSpans, hkeys, hpeers, hunit, hoffsets, htype, hsigned, Result.ok_bind]
    simp [RangeView.span, RangeView.first, RangeView.stop, RangeView.coordinate?, almostADay, nights,
      Arrangement.valueAt, Value.isNull, hfirst, hsecond, hbelow, hbelow']
  · have hle := henclosed.1 (-86399999999) rfl
    simp only [hdays, dayMicroseconds] at hle
    omega

end FrameExtent
end OrderedRelations
