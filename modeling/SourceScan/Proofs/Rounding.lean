import Mathlib.Algebra.Order.Field.Rat
import Mathlib.Data.Nat.Cast.Order.Field
import Mathlib.Tactic.FieldSimp
import Mathlib.Tactic.Linarith
import Mathlib.Tactic.NormNum
import Mathlib.Tactic.Ring
import SourceScan.Binary32.Arithmetic

/-!
# Proofs/Rounding.lean -- what rounding does

The rank that `nearestRank` chooses is that of the magnitude nearest to a quotient, and of the even
one of two. This decides what it is: rounding keeps the order, leaves magnitudes as they are, and changes
a whole number of units by the 2^24th part of it at most.

* `magnitude`: the number of a rank.
* `RoundsTo x rank`: `x` lies between the midpoints to the magnitude's neighbours.
* **`roundsTo_nearestRank`**, **`RoundsTo.nearest`**: what `nearestRank` chooses is nearest.
* `RoundsTo.mono`, `RoundsTo.unique`: rounding keeps the order, and has one result.
* `add_finite`, `mul_finite`, `div_finite`: what the operations on finite values round.
* `IsExact n`: `n` is a magnitude; `add_ofNat`, `mul_ofNat`: operations on such numbers are rounded
  as their results are.
-/

namespace SourceScan

/-! ## 1. Magnitudes -/

/-- The magnitude of a rank. -/
def magnitude (rank : ℕ) : ℚ :=
  units rank / (unitsInOne : ℕ)

theorem unitsInOne_pos : (0 : ℚ) < (unitsInOne : ℕ) :=
  Nat.cast_pos.mpr (Nat.two_pow_pos 149)

@[simp] theorem magnitude_zero : magnitude 0 = 0 := by
  rw [magnitude, units_of_lt (by decide), Nat.cast_zero, zero_div]

theorem ne_zero_of_magnitude_pos {rank : ℕ} (h : 0 < magnitude rank) : rank ≠ 0 := by
  rintro rfl
  rw [magnitude_zero] at h
  exact lt_irrefl 0 h

theorem magnitude_lt {rank rank' : ℕ} (h : rank < rank') : magnitude rank < magnitude rank' :=
  div_lt_div_of_pos_right (Nat.cast_lt.mpr (units_lt h)) unitsInOne_pos

theorem magnitude_le {rank rank' : ℕ} (h : rank ≤ rank') : magnitude rank ≤ magnitude rank' := by
  rcases Nat.eq_or_lt_of_le h with rfl | h
  · exact le_rfl
  · exact (magnitude_lt h).le

/-- Up to twice the binade a number of steps is the number of the rank, in the binades that have
    the step. -/
theorem units_of_steps {e m : ℕ} (hm : m ≤ 2 * binade) (he : e = 0 ∨ binade ≤ m) :
    units (e * binade + m) = m * 2 ^ e := by
  rcases Nat.lt_or_ge m binade with hlt | hge
  · obtain rfl : e = 0 := he.resolve_right (Nat.not_le.mpr hlt)
    rw [Nat.zero_mul, Nat.zero_add, units_of_lt hlt, pow_zero, Nat.mul_one]
  · rcases Nat.lt_or_ge m (2 * binade) with hlt | htwice
    · have hrank : e * binade + m = (e + 1) * binade + (m - binade) := by
        rw [Nat.succ_mul]
        omega
      rw [hrank, units_of_binade e (m - binade) (by omega), Nat.add_sub_cancel' hge]
      rfl
    · have hrank : e * binade + m = (e + 1 + 1) * binade + 0 := by
        rw [Nat.succ_mul, Nat.succ_mul]
        omega
      have hm : m = binade * 2 := by omega
      rw [hrank, units_of_binade (e + 1) 0 (by decide), hm, Nat.mul_assoc, ← Nat.pow_succ']
      rfl

/-- A quotient as a number of steps and a rest, and the rank that is chosen from them. -/
theorem exists_steps (num : ℕ) {den : ℕ} (hden : 0 < den) :
    ∃ e m r : ℕ, num = m * (den * 2 ^ e) + r ∧ r < den * 2 ^ e ∧ m < 2 * binade ∧
      (e = 0 ∨ binade ≤ m) ∧ nearestRank num den = e * binade +
        (if 2 * r < den * 2 ^ e then m else if den * 2 ^ e < 2 * r then m + 1 else m + m % 2) := by
  obtain ⟨e, he⟩ : ∃ e, e = Nat.log2 (num / den) - 23 := ⟨_, rfl⟩
  have hstep : 0 < den * 2 ^ e := Nat.mul_pos hden (Nat.two_pow_pos e)
  refine ⟨e, num / (den * 2 ^ e), num % (den * 2 ^ e), (Nat.div_add_mod' _ _).symm,
    Nat.mod_lt _ hstep, ?_, ?_, ?_⟩
  · rw [← Nat.div_div_eq_div_mul, Nat.div_lt_iff_lt_mul (Nat.two_pow_pos e)]
    have hlog : num / den < 2 ^ (Nat.log2 (num / den) + 1) := Nat.lt_log2_self
    refine hlog.trans_le ?_
    rw [show 2 * binade = 2 ^ 24 by decide, ← Nat.pow_add]
    exact Nat.pow_le_pow_right (by decide) (by omega)
  · rcases Nat.eq_zero_or_pos e with hzero | hpos
    · exact .inl hzero
    · right
      have hlog : Nat.log2 (num / den) = e + 23 := by omega
      have hne : num / den ≠ 0 := by
        intro h
        rw [h] at hlog
        have : Nat.log2 0 = 0 := rfl
        omega
      rw [← Nat.div_div_eq_div_mul, Nat.le_div_iff_mul_le (Nat.two_pow_pos e),
        show binade = 2 ^ 23 by decide, ← Nat.pow_add, Nat.add_comm, ← hlog]
      exact Nat.log2_self_le hne
  · subst he
    rfl

/-! ## 2. Rounding -/

/-- A number that rounds to a rank lies between the midpoints to the neighbours of its magnitude, and
    if the rank is odd, at neither of them. -/
structure RoundsTo (x : ℚ) (rank : ℕ) : Prop where
  low : magnitude (rank - 1) + magnitude rank ≤ 2 * x
  high : 2 * x ≤ magnitude rank + magnitude (rank + 1)
  odd : rank % 2 = 1 → magnitude (rank - 1) + magnitude rank < 2 * x ∧
    2 * x < magnitude rank + magnitude (rank + 1)

/-- Rounding down: the number is at the magnitude or above it, and not nearer to the next. -/
theorem roundsTo_of_above {x : ℚ} {rank : ℕ} (hle : magnitude rank ≤ x)
    (hhigh : 2 * x ≤ magnitude rank + magnitude (rank + 1))
    (hodd : rank % 2 = 1 → 2 * x < magnitude rank + magnitude (rank + 1)) : RoundsTo x rank where
  low := by
    have := magnitude_le (Nat.sub_le rank 1)
    linarith
  high := hhigh
  odd h := by
    have := magnitude_lt (show rank - 1 < rank by omega)
    exact ⟨by linarith, hodd h⟩

/-- Rounding up: the number is below the magnitude, and not nearer to the one before. -/
theorem roundsTo_of_below {x : ℚ} {rank : ℕ} (hle : x ≤ magnitude (rank + 1))
    (hlow : magnitude rank + magnitude (rank + 1) ≤ 2 * x)
    (hodd : (rank + 1) % 2 = 1 → magnitude rank + magnitude (rank + 1) < 2 * x) :
    RoundsTo x (rank + 1) where
  low := hlow
  high := by
    have := magnitude_lt (Nat.lt_succ_self (rank + 1))
    linarith
  odd h := by
    have := magnitude_lt (Nat.lt_succ_self (rank + 1))
    exact ⟨hodd h, by linarith⟩

/-- A magnitude rounds to itself. -/
theorem roundsTo_magnitude (rank : ℕ) : RoundsTo (magnitude rank) rank := by
  have := magnitude_lt (Nat.lt_succ_self rank)
  exact roundsTo_of_above le_rfl (by linarith) fun _ => by linarith

section Steps

variable {e m num den r : ℕ}

/-- The magnitude of a number of steps. -/
theorem magnitude_of_steps (hm : m ≤ 2 * binade) (he : e = 0 ∨ binade ≤ m) :
    magnitude (e * binade + m) = m * 2 ^ e / (unitsInOne : ℕ) := by
  rw [magnitude, units_of_steps hm he]
  push_cast
  rfl

/-- A quotient in steps: whole ones, and a part of one. -/
theorem quotient_of_steps (hden : 0 < den) (hnum : num = m * (den * 2 ^ e) + r) :
    (num / den : ℚ) = m * 2 ^ e + r / den := by
  have hpos : (den : ℚ) ≠ 0 := Nat.cast_ne_zero.mpr hden.ne'
  rw [hnum]
  push_cast
  field_simp

/-- A quotient is between two magnitudes, and the rest tells on which side of their midpoint. -/
theorem midpoint_of_steps (hden : 0 < den) (hnum : num = m * (den * 2 ^ e) + r)
    (hr : r < den * 2 ^ e) (hm : m < 2 * binade) (he : e = 0 ∨ binade ≤ m) :
    let x : ℚ := num / den / (unitsInOne : ℕ)
    let here := magnitude (e * binade + m)
    let next := magnitude (e * binade + m + 1)
    here ≤ x ∧ x ≤ next ∧ (here + next < 2 * x ↔ den * 2 ^ e < 2 * r) ∧
      (2 * x < here + next ↔ 2 * r < den * 2 ^ e) := by
  intro x here next
  have hpos : (0 : ℚ) < den := Nat.cast_pos.mpr hden
  have hx : x = (m * 2 ^ e + r / den) / (unitsInOne : ℕ) := by
    rw [← quotient_of_steps hden hnum]
  have hhere : here = m * 2 ^ e / (unitsInOne : ℕ) := magnitude_of_steps hm.le he
  have hnext : next = (m + 1) * 2 ^ e / (unitsInOne : ℕ) := by
    show magnitude (e * binade + m + 1) = _
    rw [Nat.add_assoc, magnitude_of_steps (Nat.succ_le_of_lt hm) (he.imp_right Nat.le_succ_of_le),
      Nat.cast_succ]
  have hpart : (0 : ℚ) ≤ r / den := by positivity
  have hpartLt : (r / den : ℚ) < 2 ^ e := by
    rw [div_lt_iff₀ hpos, mul_comm]
    exact_mod_cast hr
  rw [hx, hhere, hnext, ← add_div, ← mul_div_assoc, div_lt_div_iff_of_pos_right unitsInOne_pos,
    div_lt_div_iff_of_pos_right unitsInOne_pos, div_le_div_iff_of_pos_right unitsInOne_pos,
    div_le_div_iff_of_pos_right unitsInOne_pos]
  have habove : (2 ^ e < 2 * (r / den : ℚ)) ↔ den * 2 ^ e < 2 * r := by
    rw [← mul_div_assoc, lt_div_iff₀ hpos, mul_comm _ (den : ℚ)]
    exact_mod_cast Iff.rfl
  have hbelow : (2 * (r / den : ℚ) < 2 ^ e) ↔ 2 * r < den * 2 ^ e := by
    rw [← mul_div_assoc, div_lt_iff₀ hpos, mul_comm _ (den : ℚ)]
    exact_mod_cast Iff.rfl
  rw [← habove, ← hbelow]
  refine ⟨by linarith, by linarith, ⟨fun h => ?_, fun h => ?_⟩, ⟨fun h => ?_, fun h => ?_⟩⟩ <;>
    linarith

end Steps

/-- **The rank chosen for a quotient is the one that it rounds to.** -/
theorem roundsTo_nearestRank (num : ℕ) {den : ℕ} (hden : 0 < den) :
    RoundsTo (num / den / (unitsInOne : ℕ)) (nearestRank num den) := by
  obtain ⟨e, m, r, hnum, hr, hm, he, hrank⟩ := exists_steps num hden
  obtain ⟨hle, hge, habove, hbelow⟩ := midpoint_of_steps hden hnum hr hm he
  have hparity : ∀ n, (e * binade + n) % 2 = n % 2 := fun n => by
    show (e * 0x800000 + n) % 2 = n % 2
    omega
  rw [hrank]
  rcases Nat.lt_trichotomy (2 * r) (den * 2 ^ e) with hlt | htie | hgt
  · rw [if_pos hlt]
    exact roundsTo_of_above hle (hbelow.mpr hlt).le fun _ => hbelow.mpr hlt
  · -- a tie goes to the even one of the two
    have hmid := le_antisymm (not_lt.mp fun h => htie.not_gt (habove.mp h))
      (not_lt.mp fun h => htie.not_lt (hbelow.mp h))
    rw [if_neg htie.not_lt, if_neg htie.not_gt]
    rcases Nat.mod_two_eq_zero_or_one m with heven | hodd
    · rw [heven, Nat.add_zero]
      refine roundsTo_of_above hle hmid.le fun h => ?_
      rw [hparity, heven] at h
      cases h
    · rw [hodd, ← Nat.add_assoc]
      refine roundsTo_of_below hge hmid.ge fun h => ?_
      rw [Nat.add_assoc, hparity] at h
      omega
  · rw [if_neg hgt.not_gt, if_pos hgt, ← Nat.add_assoc]
    exact roundsTo_of_below hge (habove.mpr hgt).le fun _ => habove.mpr hgt

/-- The rank is the right one: no magnitude is nearer to the number, and of two that are equally near
    it is the one with the even rank. -/
structure NearestEven (x : ℚ) (rank : ℕ) : Prop where
  nearest : ∀ r, |x - magnitude rank| ≤ |x - magnitude r|
  even : ∀ r ≠ rank, |x - magnitude r| = |x - magnitude rank| → rank % 2 = 0

namespace RoundsTo

variable {x y : ℚ} {rank rank' : ℕ}

/-- **Rounding goes to the nearest magnitude, and to the even one of two.** -/
theorem nearest (h : RoundsTo x rank) : NearestEven x rank := by
  have hbelow : ∀ r < rank, magnitude r ≤ magnitude (rank - 1) ∧ magnitude r < magnitude rank :=
    fun r hr => ⟨magnitude_le (by omega), magnitude_lt hr⟩
  have habove : ∀ r, rank < r → magnitude (rank + 1) ≤ magnitude r ∧ magnitude rank < magnitude r :=
    fun r hr => ⟨magnitude_le hr, magnitude_lt hr⟩
  have hlow := h.low
  have hhigh := h.high
  constructor
  · intro r
    rcases Nat.lt_trichotomy r rank with hr | rfl | hr
    · obtain ⟨hle, hlt⟩ := hbelow r hr
      exact (abs_le.mpr ⟨by linarith, by linarith⟩).trans (le_abs_self _)
    · exact le_rfl
    · obtain ⟨hle, hlt⟩ := habove r hr
      exact (abs_le.mpr ⟨by linarith, by linarith⟩).trans (neg_le_abs _)
  · intro r hne htie
    by_contra hodd
    obtain ⟨hlow, hhigh⟩ := h.odd (by omega)
    rcases Nat.lt_or_gt_of_ne hne with hr | hr
    · obtain ⟨hle, hlt⟩ := hbelow r hr
      have hnear : |x - magnitude rank| < x - magnitude r :=
        abs_lt.mpr ⟨by linarith, by linarith⟩
      exact (hnear.trans_le (le_abs_self _)).ne' htie
    · obtain ⟨hle, hlt⟩ := habove r hr
      have hnear : |x - magnitude rank| < -(x - magnitude r) :=
        abs_lt.mpr ⟨by linarith, by linarith⟩
      exact (hnear.trans_le (neg_le_abs _)).ne' htie

/-- **Rounding keeps the order.** Intervals of ranks meet between neighbours only, of which one is
    odd and keeps off its ends. -/
theorem mono (h : RoundsTo x rank) (h' : RoundsTo y rank') (hle : x ≤ y) : rank ≤ rank' := by
  by_contra hlt
  have hhigh := h'.high
  have hlow := h.low
  rcases Nat.lt_or_ge (rank' + 1) rank with hfar | hnear
  · have := magnitude_lt hfar
    have := magnitude_lt (show rank' < rank - 1 by omega)
    linarith
  · obtain rfl : rank = rank' + 1 := by omega
    rw [Nat.add_sub_cancel] at hlow
    rcases Nat.mod_two_eq_zero_or_one rank' with heven | hodd
    · have := (h.odd (by omega)).1
      rw [Nat.add_sub_cancel] at this
      linarith
    · have := (h'.odd hodd).2
      linarith

/-- **Rounding has one result.** -/
theorem unique (h : RoundsTo x rank) (h' : RoundsTo x rank') : rank = rank' :=
  Nat.le_antisymm (h.mono h' le_rfl) (h'.mono h le_rfl)

/-- What is not below a magnitude is not rounded to a lower one. -/
theorem le_of_magnitude_le (h : RoundsTo x rank) (hle : magnitude rank' ≤ x) : rank' ≤ rank :=
  (roundsTo_magnitude rank').mono h hle

/-- What is not above a magnitude is not rounded to a higher one. -/
theorem le_of_le_magnitude (h : RoundsTo x rank) (hle : x ≤ magnitude rank') : rank ≤ rank' :=
  h.mono (roundsTo_magnitude rank') hle

end RoundsTo

/-- **Rounding a whole number of units changes it by the 2^24th part of it at most.** Less than 2^24
    units are not changed, and more are at least 2^23 steps. -/
theorem RoundsTo.error_le {n rank : ℕ} (h : RoundsTo (n / (unitsInOne : ℕ)) rank) :
    |n / (unitsInOne : ℕ) - magnitude rank| ≤ n / (unitsInOne : ℕ) / 2 ^ 24 := by
  obtain ⟨e, m, r, hnum, hr, hm, he, -⟩ := exists_steps n Nat.one_pos
  obtain ⟨hle, hge, -, -⟩ := midpoint_of_steps Nat.one_pos hnum hr hm he
  rw [Nat.cast_one, div_one] at hle hge
  have hhere := h.nearest.nearest (e * binade + m)
  rw [abs_of_nonneg (sub_nonneg.mpr hle)] at hhere
  rcases he with rfl | hbinade
  · -- a step is a unit, so nothing is left
    have hzero : r = 0 := by omega
    have hexact : (n : ℚ) / (unitsInOne : ℕ) = magnitude (0 * binade + m) := by
      rw [magnitude_of_steps hm.le (.inl rfl), hnum, hzero]
      push_cast
      ring
    rw [← hexact, sub_self] at hhere
    exact hhere.trans (by positivity)
  · have hnext := h.nearest.nearest (e * binade + m + 1)
    rw [abs_sub_comm _ (magnitude (e * binade + m + 1)), abs_of_nonneg (sub_nonneg.mpr hge)] at hnext
    rw [magnitude_of_steps hm.le (.inr hbinade)] at hle hhere
    rw [Nat.add_assoc, magnitude_of_steps (Nat.succ_le_of_lt hm) (.inr (Nat.le_succ_of_le hbinade)),
      Nat.cast_succ m] at hnext
    have hstep : (0 : ℚ) ≤ 2 ^ e / (unitsInOne : ℕ) := by positivity
    have hmany : (2 : ℚ) ^ 23 * (2 ^ e / (unitsInOne : ℕ)) ≤ m * 2 ^ e / (unitsInOne : ℕ) := by
      rw [mul_div_assoc]
      exact mul_le_mul_of_nonneg_right (by exact_mod_cast hbinade) hstep
    rw [add_mul, one_mul, add_div] at hnext
    linarith

/-! ## 3. Operations -/

namespace Binary32

/-- **Finite values are added as magnitudes, and the sum is rounded.** -/
theorem add_finite (r s : Fin finiteRanks) : ∃ rank,
    (finite false r).add (finite false s) = ofRank false rank ∧
      RoundsTo (magnitude r + magnitude s) rank := by
  refine ⟨_, by rw [add, if_pos rfl, round], ?_⟩
  have hround := roundsTo_nearestRank (units r + units s) Nat.one_pos
  rwa [Nat.cast_one, div_one, Nat.cast_add, add_div] at hround

/-- **So they are multiplied**, -/
theorem mul_finite (r s : Fin finiteRanks) : ∃ rank,
    (finite false r).mul (finite false s) = ofRank false rank ∧
      RoundsTo (magnitude r * magnitude s) rank := by
  refine ⟨_, by rw [mul, round, bne_self_eq_false], ?_⟩
  have hround := roundsTo_nearestRank (units r * units s) (Nat.two_pow_pos 149)
  rwa [Nat.cast_mul, div_div, mul_div_mul_comm] at hround

/-- **and divided.** -/
theorem div_finite (r : Fin finiteRanks) {s : Fin finiteRanks} (hs : s.val ≠ 0) : ∃ rank,
    (finite false r).div (finite false s) = ofRank false rank ∧
      RoundsTo (magnitude r / magnitude s) rank := by
  refine ⟨_, by rw [div, if_neg hs, round, bne_self_eq_false], ?_⟩
  have hround := roundsTo_nearestRank (units r * unitsInOne) (units_pos (Nat.pos_of_ne_zero hs))
  rwa [Nat.cast_mul _ unitsInOne, div_right_comm, mul_div_cancel_right₀ _ unitsInOne_pos.ne',
    ← div_div_div_cancel_right₀ unitsInOne_pos.ne'] at hround

/-- A natural number is rounded. -/
theorem ofNat_eq (n : ℕ) : ∃ rank, ofNat n = ofRank false rank ∧ RoundsTo n rank := by
  refine ⟨_, by rw [ofNat, round], ?_⟩
  have hround := roundsTo_nearestRank (n * unitsInOne) Nat.one_pos
  rwa [Nat.cast_one, div_one, Nat.cast_mul, mul_div_cancel_right₀ _ unitsInOne_pos.ne'] at hround

end Binary32

/-! ## 4. Natural numbers -/

/-- A natural number that is a finite magnitude. -/
def IsExact (n : ℕ) : Prop :=
  ∃ rank < finiteRanks, magnitude rank = n

theorem magnitude_finiteRanks : magnitude finiteRanks = 2 ^ 128 := by
  have hrank : finiteRanks = (254 + 1) * binade + 0 := by decide
  have hunits : units finiteRanks = 2 ^ 128 * unitsInOne := by
    rw [hrank, units_of_binade 254 0 (by decide)]
    decide
  rw [magnitude, hunits, Nat.cast_mul, mul_div_cancel_right₀ _ unitsInOne_pos.ne']
  norm_num

/-- The finite magnitudes are those below 2^128. -/
theorem lt_finiteRanks_iff {rank : ℕ} : rank < finiteRanks ↔ magnitude rank < 2 ^ 128 := by
  rw [← magnitude_finiteRanks]
  exact ⟨magnitude_lt, fun h => not_le.mp fun hle => (magnitude_le hle).not_gt h⟩

/-- Few steps of any size are a magnitude. -/
theorem exists_units_eq (e : ℕ) {m : ℕ} (hm : m ≤ 2 * binade) : ∃ rank, units rank = m * 2 ^ e := by
  induction e generalizing m with
  | zero => exact ⟨0 * binade + m, units_of_steps hm (.inl rfl)⟩
  | succ e ih =>
    rcases Nat.le_total m binade with hle | hge
    · obtain ⟨rank, hrank⟩ := ih (Nat.mul_le_mul_left 2 hle)
      exact ⟨rank, by rw [hrank, Nat.pow_succ']; ring⟩
    · exact ⟨(e + 1) * binade + m, units_of_steps hm (.inr hge)⟩

/-- A number of 24 binary digits with zeros behind it is a magnitude. -/
theorem exists_magnitude_eq {m : ℕ} (hm : m ≤ 2 ^ 24) (e : ℕ) :
    ∃ rank, magnitude rank = (m * 2 ^ e : ℕ) := by
  obtain ⟨rank, hrank⟩ := exists_units_eq (e + 149) (show m ≤ 2 * binade from hm)
  have hunits : units rank = m * 2 ^ e * unitsInOne := by
    rw [hrank, Nat.pow_add, Nat.mul_assoc]
  refine ⟨rank, ?_⟩
  rw [magnitude, hunits, Nat.cast_mul _ unitsInOne, mul_div_cancel_right₀ _ unitsInOne_pos.ne']

/-- **It is a finite one, and so exact, as long as it is below 2^128.** -/
theorem isExact_mul_two_pow {m e : ℕ} (hm : m ≤ 2 ^ 24) (hlt : m * 2 ^ e < 2 ^ 128) :
    IsExact (m * 2 ^ e) := by
  obtain ⟨rank, hmagnitude⟩ := exists_magnitude_eq hm e
  refine ⟨rank, lt_finiteRanks_iff.mpr ?_, hmagnitude⟩
  rw [hmagnitude]
  exact_mod_cast hlt

theorem isExact_of_le {n : ℕ} (h : n ≤ 2 ^ 24) : IsExact n := by
  have hexact := isExact_mul_two_pow (e := 0) h (by omega)
  rwa [pow_zero, Nat.mul_one] at hexact

namespace Binary32

/-- An exact number is the value that has it as its magnitude. -/
theorem ofNat_of_isExact {n : ℕ} (h : IsExact n) :
    ∃ rank : Fin finiteRanks, ofNat n = .finite false rank ∧ magnitude rank = n := by
  obtain ⟨rank, hlt, hmagnitude⟩ := h
  obtain ⟨rank', heq, hround⟩ := ofNat_eq n
  obtain rfl : rank' = rank := hround.unique (hmagnitude ▸ roundsTo_magnitude rank)
  exact ⟨⟨rank', hlt⟩, by rw [heq, ofRank, dif_pos hlt], hmagnitude⟩

/-- **Exact numbers are added as numbers, and the sum is rounded.** -/
theorem add_ofNat {a b : ℕ} (ha : IsExact a) (hb : IsExact b) :
    (ofNat a).add (ofNat b) = ofNat (a + b) := by
  obtain ⟨r, hr, hrmagnitude⟩ := ofNat_of_isExact ha
  obtain ⟨s, hs, hsmagnitude⟩ := ofNat_of_isExact hb
  obtain ⟨rank, heq, hround⟩ := add_finite r s
  obtain ⟨rank', heq', hround'⟩ := ofNat_eq (a + b)
  rw [hrmagnitude, hsmagnitude, ← Nat.cast_add] at hround
  rw [hr, hs, heq, heq', hround.unique hround']

/-- **So they are multiplied**, -/
theorem mul_ofNat {a b : ℕ} (ha : IsExact a) (hb : IsExact b) :
    (ofNat a).mul (ofNat b) = ofNat (a * b) := by
  obtain ⟨r, hr, hrmagnitude⟩ := ofNat_of_isExact ha
  obtain ⟨s, hs, hsmagnitude⟩ := ofNat_of_isExact hb
  obtain ⟨rank, heq, hround⟩ := mul_finite r s
  obtain ⟨rank', heq', hround'⟩ := ofNat_eq (a * b)
  rw [hrmagnitude, hsmagnitude, ← Nat.cast_mul] at hround
  rw [hr, hs, heq, heq', hround.unique hround']

/-- **and divided.** -/
theorem div_ofNat {a b : ℕ} (ha : IsExact a) (hb : IsExact b) (hpos : 0 < b) : ∃ rank,
    (ofNat a).div (ofNat b) = ofRank false rank ∧ RoundsTo (a / b) rank := by
  obtain ⟨r, hr, hrmagnitude⟩ := ofNat_of_isExact ha
  obtain ⟨s, hs, hsmagnitude⟩ := ofNat_of_isExact hb
  have hdiv := div_finite r (ne_zero_of_magnitude_pos (hsmagnitude ▸ Nat.cast_pos.mpr hpos))
  rwa [hrmagnitude, hsmagnitude, ← hr, ← hs] at hdiv

end Binary32

end SourceScan
