import Mathlib
import OrderedRelations.Calendar.DurationText
import OrderedRelations.Proofs.Number.Rounding
import OrderedRelations.Proofs.Window.OffsetCuts

/-!
# The order of frame bounds

The bounds of a frame are compared as doubles that count days, a duration rounded to seconds first.
Rounding never turns two bounds round, so no frame in order is refused. But it makes distant bounds
one, and then a frame that starts after its end is accepted.
-/

namespace OrderedRelations

theorem Duration.abs_le_of_inRange {m : ℤ} (h : inRange m = true) :
    |m| ≤ 10 ^ 9 * dayMicroseconds := by
  have hdays : (Int.fdiv m dayMicroseconds).natAbs ≤ 999999999 := of_decide_eq_true h
  rw [Int.fdiv_eq_ediv_of_nonneg _ (by decide)] at hdays
  simp only [dayMicroseconds] at hdays ⊢
  rw [abs_le]
  omega

namespace Offset

/-- A whole number, or a duration as long as one may be. -/
def isCount : Offset → Bool
  | whole _ => true
  | duration m => Duration.inRange m
  | real _ => false

/-- An offset that is short enough to be told from any other. -/
def Short : Offset → Prop
  | whole n => |n| ≤ 2 ^ 53
  | duration m => |m| ≤ 2 ^ 15 * dayMicroseconds
  | real _ => False

end Offset

/-- How many days a duration is taken for, rounded once as seconds and once more as days. -/
def InDays (m : ℤ) (r : ℚ) : Prop :=
  ∃ seconds, Binary64.RoundsTo .double (m / 10 ^ 6) seconds ∧
    Binary64.RoundsTo .double (seconds / 86400) r

namespace InDays

open Binary64

variable {m k : ℤ} {r s : ℚ}

theorem neg (h : InDays m r) : InDays (-m) (-r) := by
  obtain ⟨seconds, hseconds, hdays⟩ := h
  exact ⟨-seconds, by simpa [neg_div] using hseconds.neg, by simpa [neg_div] using hdays.neg⟩

theorem mono (hm : InDays m r) (hk : InDays k s) (hle : m ≤ k) : r ≤ s := by
  obtain ⟨seconds, hseconds, hdays⟩ := hm
  obtain ⟨seconds', hseconds', hdays'⟩ := hk
  have hmicro : (m : ℚ) / 10 ^ 6 ≤ k / 10 ^ 6 := by gcongr
  have hless : seconds ≤ seconds' := hseconds.mono (by decide) hseconds' hmicro
  exact hdays.mono (by decide) hdays' (by gcongr)

/-- Whole days that a duration reaches are not more than it is taken for. -/
theorem intCast_le {n : ℤ} (h : InDays m r) (hn : |n| ≤ 10 ^ 9) (hle : n * dayMicroseconds ≤ m) :
    n ≤ r := by
  obtain ⟨seconds, hseconds, hdays⟩ := h
  rw [abs_le] at hn
  simp only [dayMicroseconds] at hle
  have hmicro : ((86400 * n : ℤ) : ℚ) ≤ m / 10 ^ 6 := by
    rw [le_div_iff₀ (by norm_num)]
    exact_mod_cast (by omega : 86400 * n * 10 ^ 6 ≤ m)
  have hwhole := hseconds.intCast_le hmicro (by rw [abs_le]; omega)
  have hquotient : (n : ℚ) ≤ seconds / 86400 := by
    rw [le_div_iff₀ (by norm_num), mul_comm]
    exact_mod_cast hwhole
  exact hdays.intCast_le hquotient (by rw [abs_le]; omega)

/-- Durations that are no longer than one may be have a finite number of days. -/
theorem exists_inDays (hm : |m| ≤ 10 ^ 9 * dayMicroseconds) :
    ∃ r, (Duration.inDays m).toRat? = some r ∧ InDays m r := by
  rw [abs_le] at hm
  simp only [dayMicroseconds] at hm
  have hmicro : |(m : ℚ) / 10 ^ 6| ≤ 2 ^ (47 : ℤ) := by
    rw [abs_le, div_le_iff₀ (by norm_num), le_div_iff₀ (by norm_num)]
    have hlow : -(2 ^ 47) * 10 ^ 6 ≤ m := by omega
    have hhigh : m ≤ 2 ^ 47 * 10 ^ 6 := by omega
    exact ⟨by exact_mod_cast hlow, by exact_mod_cast hhigh⟩
  obtain ⟨seconds, hseconds, hround⟩ := exists_ofRat hmicro (by decide) (by decide)
  have hlow := hround.intCast_le (n := -2 ^ 47) (by push_cast; exact_mod_cast (abs_le.mp hmicro).1)
    (by decide)
  have hhigh := hround.le_intCast (n := 2 ^ 47) (by push_cast; exact_mod_cast (abs_le.mp hmicro).2)
    (by decide)
  have hquotient : |seconds / 86400| ≤ 2 ^ (47 : ℤ) := by
    rw [abs_le, div_le_iff₀ (by norm_num), le_div_iff₀ (by norm_num)]
    push_cast at hlow hhigh
    norm_num at hlow hhigh ⊢
    constructor <;> linarith
  obtain ⟨r, hr, hround'⟩ := exists_ofRat hquotient (by decide) (by decide)
  refine ⟨r, ?_, seconds, hround, hround'⟩
  have hmk : mkRat m 1000000 = (m : ℚ) / 10 ^ 6 := by norm_num [Rat.mkRat_eq_div]
  have hmk' : mkRat 86400 1 = (86400 : ℚ) := by norm_num [Rat.mkRat_eq_div]
  rw [Duration.inDays, hmk, hseconds]
  dsimp only
  rw [hmk', hr]

/-- Short durations are taken for days that are right to within half a microsecond. -/
theorem abs_sub_lt (h : InDays m r) (hm : |m| ≤ 2 ^ 15 * dayMicroseconds) :
    |r * dayMicroseconds - m| < 1 / 2 := by
  obtain ⟨seconds, hseconds, hdays⟩ := h
  rw [abs_le] at hm
  simp only [dayMicroseconds] at hm ⊢
  have hlow : ((-2831155200 : ℤ) : ℚ) ≤ m / 10 ^ 6 := by
    rw [le_div_iff₀ (by norm_num)]
    exact_mod_cast (by omega : -2831155200 * 10 ^ 6 ≤ m)
  have hhigh : (m : ℚ) / 10 ^ 6 ≤ (2831155200 : ℤ) := by
    rw [div_le_iff₀ (by norm_num)]
    exact_mod_cast (by omega : m ≤ 2831155200 * 10 ^ 6)
  have hlow' := hseconds.intCast_le hlow (by decide)
  have hhigh' := hseconds.le_intCast hhigh (by decide)
  push_cast at hlow hhigh hlow' hhigh'
  -- up to 2³² seconds a double is off by 2⁻²² of one, up to 2¹⁵ days by 2⁻³⁹ of one
  have herror : |seconds - m / 10 ^ 6| ≤ 2 ^ (-22 : ℤ) := by
    have := hseconds.abs_sub_le_of_le (k := 32) (by decide)
      (by rw [abs_le]; constructor <;> linarith) (by decide)
    norm_num [BinaryFormat.double] at this ⊢
    exact this
  have herror' : |r - seconds / 86400| ≤ 2 ^ (-39 : ℤ) := by
    have := hdays.abs_sub_le_of_le (k := 15) (by decide)
      (by rw [abs_le]; constructor <;> linarith) (by decide)
    norm_num [BinaryFormat.double] at this ⊢
    exact this
  rw [abs_le] at herror herror'
  rw [abs_lt]
  norm_num at herror herror' ⊢
  constructor <;> linarith

end InDays

/-- How many days an exact distance in microseconds is taken for. -/
inductive ReadsAs : ℤ → ℚ → Prop
  | days {n : ℤ} {r : ℚ} (h : Binary64.RoundsTo .double n r) : ReadsAs (n * dayMicroseconds) r
  | duration {m : ℤ} {r : ℚ} (hm : |m| ≤ 10 ^ 9 * dayMicroseconds) (h : InDays m r) : ReadsAs m r

namespace ReadsAs

variable {d e : ℤ} {r s : ℚ}

theorem neg (h : ReadsAs d r) : ReadsAs (-d) (-r) := by
  cases h with
  | days h =>
    rw [← neg_mul]
    exact .days (by simpa using h.neg)
  | duration hm h => exact .duration (by rwa [abs_neg]) h.neg

/-- No duration is as long as days may be, so days are cut off where durations end. -/
theorem days_le_duration {n m : ℤ} (hn : Binary64.RoundsTo .double n r)
    (hm : |m| ≤ 10 ^ 9 * dayMicroseconds) (h : InDays m s) (hle : n * dayMicroseconds ≤ m) :
    r ≤ s := by
  obtain ⟨hlow, hhigh⟩ := abs_le.mp hm
  simp only [dayMicroseconds] at hle hlow hhigh
  obtain ⟨k, hk⟩ : ∃ k, k = max n (-10 ^ 9) := ⟨_, rfl⟩
  have hnk : (n : ℚ) ≤ k := by exact_mod_cast (by omega : n ≤ k)
  have hlower := hn.le_intCast hnk (by rw [abs_le]; omega)
  have hupper := h.intCast_le (n := k) (by rw [abs_le]; omega)
    (by simp only [dayMicroseconds]; omega)
  exact hlower.trans hupper

/-- Distances are taken for days in the order of the distances. -/
theorem mono (hd : ReadsAs d r) (he : ReadsAs e s) (hle : d ≤ e) : r ≤ s := by
  cases hd with
  | days hn =>
    cases he with
    | days hk =>
      refine hn.mono (by decide) hk ?_
      exact_mod_cast Int.le_of_mul_le_mul_right hle (by decide)
    | duration hm h => exact days_le_duration hn hm h hle
  | duration hm h =>
    cases he with
    | @days n _ hn =>
      have hn' : Binary64.RoundsTo .double (-n : ℤ) (-s) := by simpa using hn.neg
      have hle' : -n * dayMicroseconds ≤ -d := by rw [neg_mul]; exact neg_le_neg hle
      exact neg_le_neg_iff.mp (days_le_duration hn' (by rwa [abs_neg]) h.neg hle')
    | duration hm' h' => exact h.mono h' hle

end ReadsAs

namespace Offset

/-- The size of an offset is what its length is taken for. -/
theorem readsAs_magnitude {o : Offset} (ho : o.isCount = true) {v : Binary64}
    (hv : o.magnitude? = some v) : ∃ r, v.toRat? = some r ∧ ReadsAs (o.length .datetime) r ∧
      (o.Short → |r * dayMicroseconds - o.length .datetime| < 1 / 2) := by
  cases o with
  | whole n =>
    have hv : Binary64.nearest? .double (mkRat n 1) = some v := hv
    rw [Rat.mkRat_eq_div, Nat.cast_one, div_one] at hv
    obtain ⟨r, hr, hround⟩ := Binary64.toRat?_of_nearest? hv
    refine ⟨r, hr, .days hround, fun hshort => ?_⟩
    rw [hround.eq_intCast hshort]
    norm_num [length]
  | duration m =>
    have hm := Duration.abs_le_of_inRange ho
    obtain ⟨r, hr, hdays⟩ := InDays.exists_inDays hm
    cases hv
    exact ⟨r, hr, .duration hm hdays, hdays.abs_sub_lt⟩
  | real x => cases ho

end Offset

namespace FrameBound

/-- A bound that can be made, with a whole number or a duration as its offset, if any. -/
structure Constructed (b : FrameBound) : Prop where
  made : ∃ kind offset, make kind offset = .ok b
  counted : ∀ o, b.offset? = some o → o.isCount = true

/-- The place at a distance from the current row. -/
def atDistance (d : ℤ) : WithBot (WithTop ℤ) := WithBot.some (WithTop.some d)

theorem atDistance_lt {d e : ℤ} : atDistance d < atDistance e ↔ d < e := by
  rw [atDistance, atDistance, WithBot.coe_lt_coe, WithTop.coe_lt_coe]

/-- Where a bound lies, exactly, in microseconds from the current row: a number stands for days. -/
def place : FrameBound → WithBot (WithTop ℤ)
  | unboundedPreceding => ⊥
  | preceding o => atDistance (-o.length .datetime)
  | currentRow => atDistance 0
  | following o => atDistance (o.length .datetime)
  | unboundedFollowing => ⊤

/-- Whether the offset of a bound, if any, is short. -/
def Short (b : FrameBound) : Prop := ∀ o, b.offset? = some o → o.Short

theorem checkOffset_eq_ok {o o' : Offset} (h : checkOffset o = .ok o') :
    o' = o ∧ ∃ v, o.magnitude? = some v := by
  unfold checkOffset at h
  split at h
  · cases h
  · split at h
    · cases h
    · cases h
      exact ⟨rfl, _, ‹_›⟩

theorem Constructed.exists_magnitude {b : FrameBound} (h : b.Constructed) {o : Offset}
    (ho : b.offset? = some o) : ∃ v, o.magnitude? = some v := by
  obtain ⟨kind, offset, hmake⟩ := h.made
  cases offset with
  | none => cases kind <;> cases hmake <;> cases ho
  | some p =>
    obtain ⟨wrap, hwrap, hmap⟩ : ∃ wrap : Offset → FrameBound,
        (∀ p, (wrap p).offset? = some p) ∧ (checkOffset p).map wrap = .ok b := by
      cases kind with
      | preceding => exact ⟨preceding, fun _ => rfl, hmake⟩
      | following => exact ⟨following, fun _ => rfl, hmake⟩
      | _ => cases hmake
    obtain ⟨q, hcheck, rfl⟩ := Result.map_eq_ok.mp hmap
    obtain ⟨rfl, hv⟩ := checkOffset_eq_ok hcheck
    rw [hwrap, Option.some.injEq] at ho
    exact ho ▸ hv

/-- The position of a bound at a distance is what that distance is taken for. -/
theorem Constructed.exists_position {b : FrameBound} (h : b.Constructed) :
    b = unboundedPreceding ∨ b = unboundedFollowing ∨
      ∃ (d : ℤ) (v : Binary64) (r : ℚ), b.place = atDistance d ∧ b.position? = some (1, v) ∧
        v.place? = some (0, r) ∧ ReadsAs d r ∧
        (b.Short → |r * dayMicroseconds - d| < 1 / 2) := by
  cases b with
  | unboundedPreceding => exact .inl rfl
  | unboundedFollowing => exact .inr (.inl rfl)
  | currentRow =>
    refine .inr (.inr ⟨0, .zero, 0, rfl, rfl, rfl, ?_, ?_⟩)
    · obtain ⟨r, hr⟩ := Binary64.exists_roundsTo .double 0
      have hdays : ReadsAs ((0 : ℤ) * dayMicroseconds) r := .days (by simpa using hr)
      rwa [hr.zero, zero_mul] at hdays
    · norm_num
  | preceding o =>
    obtain ⟨v, hv⟩ := h.exists_magnitude rfl
    obtain ⟨r, hr, hreads, hshort⟩ := Offset.readsAs_magnitude (h.counted o rfl) hv
    refine .inr (.inr ⟨-o.length .datetime, v.neg, -r, rfl, ?_, ?_, hreads.neg, fun hs => ?_⟩)
    · simp [position?, hv]
    · simp [Binary64.place?_neg, Binary64.place?_of_toRat? hr]
    · have hturn : -r * dayMicroseconds - (-o.length .datetime : ℤ) =
          -(r * dayMicroseconds - o.length .datetime) := by
        push_cast
        ring
      rw [hturn, abs_neg]
      exact hshort (hs o rfl)
  | following o =>
    obtain ⟨v, hv⟩ := h.exists_magnitude rfl
    obtain ⟨r, hr, hreads, hshort⟩ := Offset.readsAs_magnitude (h.counted o rfl) hv
    refine .inr (.inr ⟨o.length .datetime, v, r, rfl, ?_, ?_, hreads, fun hs => hshort (hs o rfl)⟩)
    · simp [position?, hv]
    · exact Binary64.place?_of_toRat? hr

/-- Whether two bounds have the same position: doubles that are equal. -/
def Coincides (a b : FrameBound) : Prop := ∃ p q, a.position? = some p ∧ b.position? = some q ∧
  p.1 = q.1 ∧ (Quantity.real p.2).same (.real q.2) = true

section Positions

variable {v w : Binary64} {r s : ℚ}

theorem isAfter_iff (hv : v.place? = some (0, r)) (hw : w.place? = some (0, s)) :
    isAfter (1, v) (1, w) = true ↔ s < r := by
  have hless : (Quantity.real w).less (.real v) = true ↔ s < r := by
    simp [Quantity.less_iff, Quantity.place?, hv, hw, Prod.Lex.toLex_lt_toLex]
  simp [isAfter, hless]

theorem coincides_iff {a b : FrameBound} (ha : a.position? = some (1, v))
    (hb : b.position? = some (1, w)) (hv : v.place? = some (0, r)) (hw : w.place? = some (0, s)) :
    a.Coincides b ↔ r = s := by
  constructor
  · rintro ⟨p, q, hp, hq, -, hsame⟩
    cases ha.symm.trans hp
    cases hb.symm.trans hq
    obtain ⟨x, hx, hx'⟩ := Quantity.same_iff.mp hsame
    cases hv.symm.trans hx
    cases hw.symm.trans hx'
    rfl
  · rintro rfl
    exact ⟨_, _, ha, hb, rfl, Quantity.same_iff.mpr ⟨_, hv, hw⟩⟩

end Positions

/-- The position of a start is after that of an end just where the start lies after the end and the
two do not have one position. -/
theorem Constructed.isAfter_position {start stop : FrameBound} (hstart : start.Constructed)
    (hstop : stop.Constructed) (hs : start ≠ unboundedFollowing) (ht : stop ≠ unboundedPreceding) :
    ∃ p q, start.position? = some p ∧ stop.position? = some q ∧
      (isAfter p q = true ↔ stop.place < start.place ∧ ¬ start.Coincides stop) := by
  rcases hstart.exists_position with rfl | hs' | ⟨d, v, r, hd, hp, hv, hreads, -⟩
  · rcases hstop.exists_position with ht' | rfl | ⟨e, w, s, he, hq, hw, hreads', -⟩
    · exact absurd ht' ht
    · exact ⟨_, _, rfl, rfl, by simp [isAfter, place]⟩
    · exact ⟨_, _, rfl, hq, by simp [isAfter, place]⟩
  · exact absurd hs' hs
  · rcases hstop.exists_position with ht' | rfl | ⟨e, w, s, he, hq, hw, hreads', -⟩
    · exact absurd ht' ht
    · exact ⟨_, _, hp, rfl, by simp [isAfter, place]⟩
    · refine ⟨_, _, hp, hq, ?_⟩
      rw [isAfter_iff hv hw, coincides_iff hp hq hv hw, hd, he, atDistance_lt]
      constructor
      · intro hlt
        exact ⟨lt_of_not_ge fun hle => (hreads.mono hreads' hle).not_gt hlt, hlt.ne'⟩
      · rintro ⟨hlt, hne⟩
        exact lt_of_le_of_ne (hreads'.mono hreads hlt.le) (Ne.symm hne)

/-- Short offsets are told apart: each is off by less than half a microsecond, with a whole one
between them. -/
theorem Constructed.not_coincides {start stop : FrameBound} (hstart : start.Constructed)
    (hstop : stop.Constructed) (hs : start ≠ unboundedFollowing) (ht : stop ≠ unboundedPreceding)
    (hs' : start.Short) (ht' : stop.Short) (hlt : stop.place < start.place) :
    ¬ start.Coincides stop := by
  rcases hstart.exists_position with rfl | hs'' | ⟨d, v, r, hd, hp, hv, -, hclose⟩
  · exact absurd hlt not_lt_bot
  · exact absurd hs'' hs
  · rcases hstop.exists_position with ht'' | rfl | ⟨e, w, s, he, hq, hw, -, hclose'⟩
    · exact absurd ht'' ht
    · exact absurd hlt not_top_lt
    · rw [coincides_iff hp hq hv hw]
      rintro rfl
      rw [hd, he, atDistance_lt] at hlt
      have hstep : (e : ℚ) + 1 ≤ d := by exact_mod_cast hlt
      have hd' := (abs_lt.mp (hclose hs')).1
      have he' := (abs_lt.mp (hclose' ht')).2
      linarith

end FrameBound

namespace FrameSpec

variable {unit : FrameUnit} {start stop : FrameBound}

/-- What a frame needs besides the order of its bounds: ends that can be ends, and rows that are
counted. -/
structure Formed (unit : FrameUnit) (start stop : FrameBound) : Prop where
  starts : start ≠ .unboundedFollowing
  stops : stop ≠ .unboundedPreceding
  counts : unit = .rows →
    ∀ m, start.offset? ≠ some (.duration m) ∧ stop.offset? ≠ some (.duration m)

/-- A frame that does not end before it starts. -/
structure Admissible (unit : FrameUnit) (start stop : FrameBound) : Prop
    extends Formed unit start stop where
  ordered : start.place ≤ stop.place

/-- A frame that ends before it starts, though both have the same position. -/
structure Blurred (unit : FrameUnit) (start stop : FrameBound) : Prop
    extends Formed unit start stop where
  inverted : stop.place < start.place
  coincides : start.Coincides stop

/-- Whether exactly an admissible frame is made, and any other refused as a frame. -/
def Decides (unit : FrameUnit) (start stop : FrameBound) : Prop :=
  (Admissible unit start stop → make unit start stop = .ok ⟨unit, start, stop⟩) ∧
    (¬ Admissible unit start stop → ∃ e, make unit start stop = .error (.frame e))

theorem checkRows_cases {b : FrameBound} (hb : b.Constructed) :
    ((∀ m, b.offset? ≠ some (.duration m)) ∧ checkRows b = .ok ()) ∨
      ((∃ m, b.offset? = some (.duration m)) ∧ ∃ e, checkRows b = .error (.frame e)) := by
  unfold checkRows
  cases ho : b.offset? with
  | none => exact .inl ⟨fun m => by simp, rfl⟩
  | some o =>
    cases o with
    | whole n => exact .inl ⟨fun m => by simp, rfl⟩
    | duration m => exact .inr ⟨⟨m, rfl⟩, _, rfl⟩
    | real x => exact absurd (hb.counted _ ho) (by simp [Offset.isCount])

/-- Every frame is made or refused as a frame, and made where it is admissible or blurred. -/
theorem make_cases (unit : FrameUnit) (hstart : start.Constructed) (hstop : stop.Constructed) :
    (make unit start stop = .ok ⟨unit, start, stop⟩ ∧
      (Admissible unit start stop ∨ Blurred unit start stop)) ∨
    ((∃ e, make unit start stop = .error (.frame e)) ∧
      ¬ (Admissible unit start stop ∨ Blurred unit start stop)) := by
  -- whatever is not formed is neither admissible nor blurred
  have hformed : Admissible unit start stop ∨ Blurred unit start stop → Formed unit start stop :=
    fun h => h.elim (fun h => h.toFormed) fun h => h.toFormed
  by_cases hs : start = .unboundedFollowing
  · exact .inr ⟨⟨_, if_pos hs⟩, fun h => (hformed h).starts hs⟩
  by_cases ht : stop = .unboundedPreceding
  · refine .inr ⟨⟨.endsAtStart, by rw [make, if_neg hs, if_pos ht]⟩, fun h => (hformed h).stops ht⟩
  obtain ⟨p, q, hp, hq, hafter⟩ := hstart.isAfter_position hstop hs ht
  by_cases hlate : FrameBound.isAfter p q = true
  · obtain ⟨hlt, hapart⟩ := hafter.mp hlate
    refine .inr ⟨⟨.startAfterEnd start.kind stop.kind start.offset? stop.offset?, ?_⟩, ?_⟩
    · simp [make, hs, ht, hp, hq, hlate]
    · exact fun h => h.elim (fun h => h.ordered.not_gt hlt) fun h => hapart h.coincides
  have hplaces : Formed unit start stop → Admissible unit start stop ∨ Blurred unit start stop := by
    intro h
    by_cases hlt : stop.place < start.place
    · exact .inr ⟨h, hlt, not_not.mp fun hapart => hlate (hafter.mpr ⟨hlt, hapart⟩)⟩
    · exact .inl ⟨h, not_lt.mp hlt⟩
  by_cases hunit : unit = .rows
  · rcases checkRows_cases hstart with ⟨hcount, hok⟩ | ⟨⟨m, hm⟩, e, he⟩
    · rcases checkRows_cases hstop with ⟨hcount', hok'⟩ | ⟨⟨m, hm⟩, e, he⟩
      · refine .inl ⟨?_, hplaces ⟨hs, ht, fun _ m => ⟨hcount m, hcount' m⟩⟩⟩
        simp [make, hs, ht, hp, hq, hlate, hunit, hok, hok']
      · refine .inr ⟨⟨e, ?_⟩, fun h => ((hformed h).counts hunit m).2 hm⟩
        simp [make, hs, ht, hp, hq, hlate, hunit, hok, he]
    · refine .inr ⟨⟨e, ?_⟩, fun h => ((hformed h).counts hunit m).1 hm⟩
      simp [make, hs, ht, hp, hq, hlate, hunit, he]
  · refine .inl ⟨?_, hplaces ⟨hs, ht, fun h => absurd h hunit⟩⟩
    simp [make, hs, ht, hp, hq, hlate, hunit]

/-- A frame is made or refused as it should be unless it is blurred, and a blurred one is made.
Short offsets never blur a frame. -/
theorem decides_iff (unit : FrameUnit) (hstart : start.Constructed) (hstop : stop.Constructed) :
    (Decides unit start stop ↔ ¬ Blurred unit start stop) ∧
      (Blurred unit start stop → make unit start stop = .ok ⟨unit, start, stop⟩) ∧
      (start.Short → stop.Short → Decides unit start stop) := by
  have hcases := make_cases unit hstart hstop
  have hmade : Blurred unit start stop → make unit start stop = .ok ⟨unit, start, stop⟩ := by
    intro hblurred
    rcases hcases with ⟨hmake, -⟩ | ⟨-, hnot⟩
    · exact hmake
    · exact absurd (.inr hblurred) hnot
  have hdecides : Decides unit start stop ↔ ¬ Blurred unit start stop := by
    constructor
    · rintro ⟨-, hrefuses⟩ hblurred
      obtain ⟨e, he⟩ := hrefuses fun h => h.ordered.not_gt hblurred.inverted
      rw [hmade hblurred] at he
      cases he
    · intro hclear
      rcases hcases with ⟨hmake, hfine⟩ | ⟨hrefused, hnot⟩
      · exact ⟨fun _ => hmake, fun h => absurd (hfine.resolve_right hclear) h⟩
      · exact ⟨fun h => absurd (.inl h) hnot, fun _ => hrefused⟩
  refine ⟨hdecides, hmade, fun hs ht => hdecides.mpr fun hblurred => ?_⟩
  exact hstart.not_coincides hstop hblurred.starts hblurred.stops hs ht hblurred.inverted
    hblurred.coincides

/-- The first whole number that is no double, and the double that it is taken for. -/
def beyond : ℤ := 9007199254740993

def brink : ℤ := 9007199254740992

theorem magnitude_beyond : (Offset.whole beyond).magnitude? = some (.number 9007199254740992) := by
  decide +kernel

theorem magnitude_brink : (Offset.whole brink).magnitude? = some (.number 9007199254740992) := by
  decide +kernel

theorem constructed_of_magnitude {n : ℤ}
    (h : (Offset.whole n).magnitude? = some (.number 9007199254740992)) :
    FrameBound.Constructed (.following (.whole n)) := by
  refine ⟨⟨.following, some (.whole n), ?_⟩, ?_⟩
  · rw [FrameBound.make, FrameBound.checkOffset, h]
    rfl
  · rintro o ⟨⟩
    rfl

theorem place_brink_lt :
    (FrameBound.following (.whole brink)).place < (FrameBound.following (.whole beyond)).place :=
  FrameBound.atDistance_lt.mpr (by decide)

theorem blurred_beyond :
    Blurred .rows (.following (.whole beyond)) (.following (.whole brink)) := by
  have hstart : (FrameBound.following (.whole beyond)).position? =
      some (1, .number 9007199254740992) := by
    rw [FrameBound.position?, magnitude_beyond, Option.map_some]
  have hstop : (FrameBound.following (.whole brink)).position? =
      some (1, .number 9007199254740992) := by
    rw [FrameBound.position?, magnitude_brink, Option.map_some]
  exact ⟨⟨by decide, by decide, fun _ m => by simp [FrameBound.offset?]⟩, place_brink_lt,
    (FrameBound.coincides_iff hstart hstop rfl rfl).mpr rfl⟩

/-- Rows from beyond to the brink are wrongly a frame, and rightly one the other way. -/
theorem decides_iff_brink :
    (FrameBound.Constructed (.following (.whole beyond)) ∧
      FrameBound.Constructed (.following (.whole brink))) ∧
    ¬ Decides .rows (.following (.whole beyond)) (.following (.whole brink)) ∧
    Decides .rows (.following (.whole brink)) (.following (.whole beyond)) := by
  have hbeyond := constructed_of_magnitude magnitude_beyond
  have hbrink := constructed_of_magnitude magnitude_brink
  refine ⟨⟨hbeyond, hbrink⟩, ?_, ?_⟩
  · rw [(decides_iff .rows hbeyond hbrink).1, not_not]
    exact blurred_beyond
  · rw [(decides_iff .rows hbrink hbeyond).1]
    exact fun h => h.inverted.not_gt place_brink_lt

/-- Rows from beyond to the brink are made a frame though they end before they start. -/
theorem make_inverted :
    (FrameBound.Constructed (.following (.whole beyond)) ∧
      FrameBound.Constructed (.following (.whole brink))) ∧
    (FrameBound.following (.whole brink)).place < (FrameBound.following (.whole beyond)).place ∧
    make .rows (.following (.whole beyond)) (.following (.whole brink)) =
      .ok ⟨.rows, .following (.whole beyond), .following (.whole brink)⟩ := by
  have hbeyond := constructed_of_magnitude magnitude_beyond
  have hbrink := constructed_of_magnitude magnitude_brink
  refine ⟨⟨hbeyond, hbrink⟩, place_brink_lt, ?_⟩
  rcases make_cases .rows hbeyond hbrink with ⟨hmake, -⟩ | ⟨-, hnot⟩
  · exact hmake
  · exact absurd (.inr blurred_beyond) hnot

end FrameSpec

end OrderedRelations
