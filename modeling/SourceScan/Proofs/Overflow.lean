import Mathlib.Data.Nat.Size
import Mathlib.Tactic.Positivity
import SourceScan.Proofs.SmallNumerals

/-!
# Proofs/Overflow.lean -- numerals of many digits

The digits of a numeral and the power of the base behind its point are computed apart, and each may
be beyond all finite numbers. So the quotient may be infinity or no number at all though the numeral
is neither; it is never negative.

* `Within t x y`: `t` roundings may have made `y` of `x`.
* `ReadAs n x`: `x` is near `n`, or infinite if `n` is near 2^128 or above it; `readAs_whole`: so are
  the digits read, whatever their number.
* `AtLeast`: a value that is not below a number; `atLeast_power`: powers are not below those of a
  power of two.
* `power_base_eq_infinite_iff`: which powers of a base are infinite.
* **`value_extent`**: when a numeral is infinite, and when it is no number.
* `value_extent_ten`, `not_forall_value_finite`: two with many zeros behind the point, of which one is
  infinite and one no number.
-/

namespace SourceScan

/-! ## 1. Roundings in a row -/

/-- The part of a number that rounding changes at most. -/
def roundoff : ℚ :=
  1 / 2 ^ 24

theorem one_le_one_add_roundoff : 1 ≤ 1 + roundoff := by
  norm_num [roundoff]

theorem one_sub_roundoff_nonneg : 0 ≤ 1 - roundoff := by
  norm_num [roundoff]

theorem one_sub_roundoff_le_one : 1 - roundoff ≤ 1 := by
  norm_num [roundoff]

theorem one_add_roundoff_pow_nonneg (t : ℕ) : 0 ≤ (1 + roundoff) ^ t :=
  pow_nonneg (zero_le_one.trans one_le_one_add_roundoff) t

/-- `t` roundings may have made `y` of `x`. -/
structure Within (t : ℕ) (x y : ℚ) : Prop where
  low : x * (1 - roundoff) ^ t ≤ y
  high : y ≤ x * (1 + roundoff) ^ t

/-- One rounding, of a whole number of units. -/
theorem RoundsTo.within {x : ℚ} {rank : ℕ} (h : RoundsTo x rank) {n : ℕ}
    (hx : x = n / (unitsInOne : ℕ)) : Within 1 x (magnitude rank) := by
  subst hx
  have herror := abs_le.mp h.error_le
  rw [div_eq_mul_one_div _ ((2 : ℚ) ^ 24)] at herror
  constructor <;> rw [pow_one, roundoff] <;> linarith [herror.1, herror.2]

namespace Within

variable {s t : ℕ} {x y z c : ℚ}

theorem trans (h : Within s x y) (h' : Within t y z) : Within (s + t) x z where
  low := by
    rw [pow_add, ← mul_assoc]
    exact (mul_le_mul_of_nonneg_right h.low (pow_nonneg one_sub_roundoff_nonneg t)).trans h'.low
  high := by
    rw [pow_add, ← mul_assoc]
    exact h'.high.trans (mul_le_mul_of_nonneg_right h.high (one_add_roundoff_pow_nonneg t))

/-- More roundings may have done it too. -/
theorem of_le (h : Within s x y) (hx : 0 ≤ x) (hst : s ≤ t) : Within t x y where
  low := by
    have hle : (1 - roundoff) ^ t ≤ (1 - roundoff) ^ s :=
      pow_le_pow_of_le_one one_sub_roundoff_nonneg one_sub_roundoff_le_one hst
    exact (mul_le_mul_of_nonneg_left hle hx).trans h.low
  high := by
    have hle : (1 + roundoff) ^ s ≤ (1 + roundoff) ^ t :=
      pow_le_pow_right₀ one_le_one_add_roundoff hst
    exact h.high.trans (mul_le_mul_of_nonneg_left hle hx)

theorem mul_right (h : Within t x y) (hc : 0 ≤ c) : Within t (x * c) (y * c) where
  low := by
    rw [mul_right_comm]
    exact mul_le_mul_of_nonneg_right h.low hc
  high := by
    rw [mul_right_comm]
    exact mul_le_mul_of_nonneg_right h.high hc

theorem add_right (h : Within t x y) (hc : 0 ≤ c) : Within t (x + c) (y + c) := by
  have hself : Within t c c := of_le ⟨by rw [pow_zero, mul_one], by rw [pow_zero, mul_one]⟩ hc
    (Nat.zero_le t)
  constructor <;> rw [add_mul]
  · exact add_le_add h.low hself.low
  · exact add_le_add h.high hself.high

end Within

/-! ## 2. Digits -/

/-- A number that is read with two roundings for each of its binary digits: it is nearby, or nearby
    it is beyond the finite numbers. -/
def ReadAs (n : ℕ) : Binary32 → Prop
  | .finite false rank => Within (2 * n.size) n (magnitude rank)
  | .infinite false => (2 : ℚ) ^ 128 ≤ n * (1 + roundoff) ^ (2 * n.size)
  | _ => False

/-- A number is at least half the power of two that has one digit more. -/
theorem two_pow_size_le {n : ℕ} (h : 0 < n) : 2 ^ n.size ≤ 2 * n := by
  have hsize : 0 < n.size := Nat.size_pos.mpr h
  have hhalf : 2 ^ (n.size - 1) ≤ n := Nat.lt_size.mp (Nat.sub_lt hsize Nat.one_pos)
  calc 2 ^ n.size = 2 * 2 ^ (n.size - 1) := by rw [← pow_succ', Nat.sub_add_cancel hsize]
    _ ≤ 2 * n := Nat.mul_le_mul_left 2 hhalf

/-- A digit behind a number makes it longer, unless both are zero. -/
theorem size_lt_size {n base d : ℕ} (hbase : 2 ≤ base) (hpos : 0 < n * base + d) :
    n.size < (n * base + d).size := by
  rw [Nat.lt_size]
  rcases Nat.eq_zero_or_pos n with rfl | hn
  · rw [Nat.size_zero, pow_zero]
    exact hpos
  · calc 2 ^ n.size ≤ 2 * n := two_pow_size_le hn
      _ ≤ n * base := by rw [Nat.mul_comm]; exact Nat.mul_le_mul_left n hbase
      _ ≤ n * base + d := Nat.le_add_right _ _

/-- Two more roundings are those of one more digit. -/
theorem Within.concat {n base d : ℕ} {y : ℚ} (hbase : 2 ≤ base)
    (h : Within (2 * n.size + 2) ((n * base + d : ℕ) : ℚ) y) :
    Within (2 * (n * base + d).size) ((n * base + d : ℕ) : ℚ) y := by
  rcases Nat.eq_zero_or_pos (n * base + d) with hzero | hpos
  · have hlow := h.low
    have hhigh := h.high
    rw [hzero, Nat.cast_zero, zero_mul] at hlow hhigh
    rw [hzero, le_antisymm hhigh hlow]
    constructor <;> rw [Nat.cast_zero, zero_mul]
  · have := size_lt_size hbase hpos
    exact h.of_le (Nat.cast_nonneg _) (by omega)

namespace Binary32

theorem le_magnitude_of_le {rank : ℕ} (h : ¬ rank < finiteRanks) : (2 : ℚ) ^ 128 ≤ magnitude rank :=
  magnitude_finiteRanks ▸ magnitude_le (Nat.not_lt.mp h)

theorem readAs_ofRank {n rank : ℕ} (h : Within (2 * n.size) n (magnitude rank)) :
    ReadAs n (ofRank false rank) := by
  unfold ofRank
  split
  · exact h
  · next hrank => exact (le_magnitude_of_le hrank).trans h.high

/-- What is infinite without the digit behind it is infinite with it. -/
theorem readAs_infinite_concat {n base d : ℕ} (hbase : 2 ≤ base)
    (h : (2 : ℚ) ^ 128 ≤ n * base * (1 + roundoff) ^ (2 * n.size + 2)) :
    ReadAs (n * base + d) (infinite false) := by
  have hpos : 0 < n * base := by
    refine Nat.pos_of_ne_zero fun hzero => ?_
    rw [← Nat.cast_mul, hzero, Nat.cast_zero, zero_mul] at h
    exact absurd h (by norm_num)
  have hsize : n.size < (n * base + d).size := size_lt_size hbase (by omega)
  have hle : (n * base : ℚ) ≤ (n * base + d : ℕ) := by exact_mod_cast Nat.le_add_right _ _
  exact h.trans (mul_le_mul hle (pow_le_pow_right₀ one_le_one_add_roundoff (by omega))
    (one_add_roundoff_pow_nonneg _) (Nat.cast_nonneg _))

/-- **One more digit is read with two more roundings.** -/
theorem readAs_step {n base d : ℕ} {x : Binary32} (hbase : 2 ≤ base) (hexact : IsExact base)
    (hdigit : IsExact d) (h : ReadAs n x) :
    ReadAs (n * base + d) ((x.mul (ofNat base)).add (ofNat d)) := by
  obtain ⟨a, ha, hamagnitude⟩ := ofNat_of_isExact hdigit
  rw [ha]
  match x with
  | finite false r =>
    obtain ⟨b, hb, hbmagnitude⟩ := ofNat_of_isExact hexact
    obtain ⟨rank, hmul, hround⟩ := mul_finite r b
    rw [hbmagnitude] at hround
    have hunits : magnitude r * base = (units r * base : ℕ) / (unitsInOne : ℕ) := by
      rw [magnitude, div_mul_eq_mul_div, Nat.cast_mul]
    have hproduct := (Within.mul_right h (Nat.cast_nonneg base)).trans (hround.within hunits)
    rw [hb, hmul, ofRank]
    split
    · next hrank =>
      obtain ⟨rank', hadd, hround'⟩ := add_finite ⟨rank, hrank⟩ a
      have hunits' : magnitude rank + magnitude a =
          (units rank + units a : ℕ) / (unitsInOne : ℕ) := by
        rw [magnitude, magnitude, Nat.cast_add, add_div]
      have hsum := (hproduct.add_right (Nat.cast_nonneg d)).trans
        (hamagnitude ▸ hround'.within hunits')
      rw [hadd]
      refine readAs_ofRank (Within.concat hbase ?_)
      rwa [Nat.cast_add, Nat.cast_mul]
    · next hrank =>
      have hhigh := (hproduct.of_le (t := 2 * n.size + 2) (by positivity) (by omega)).high
      exact readAs_infinite_concat hbase ((le_magnitude_of_le hrank).trans hhigh)
  | infinite false =>
    rw [infinite_mul_ofNat (by omega)]
    have hone : (1 : ℚ) ≤ base := by exact_mod_cast (show 1 ≤ base by omega)
    have hle : (n : ℚ) ≤ n * base := le_mul_of_one_le_right (Nat.cast_nonneg n) hone
    exact readAs_infinite_concat hbase (le_trans h (mul_le_mul hle
      (pow_le_pow_right₀ one_le_one_add_roundoff (by omega)) (one_add_roundoff_pow_nonneg _)
      (by positivity)))

end Binary32

/-- **Digits are read as the number that they spell**, with two roundings for each binary digit of
    it, or it overflows. -/
theorem readAs_whole {radix : Radix} {digits : List ℕ} (h : ∀ d ∈ digits, d < radix.base) :
    ReadAs (Numeral.number radix.base digits) (Numeral.whole (.ofNat radix.base) digits) := by
  induction digits using List.reverseRecOn with
  | nil =>
    show Within _ ((0 : ℕ) : ℚ) (magnitude 0)
    constructor <;> simp
  | append_singleton digits d ih =>
    have hfront := ih fun c hc => h c (List.mem_append_left _ hc)
    have hd : d < radix.base := h d (List.mem_append_right _ (List.mem_singleton_self d))
    rw [Numeral.number_concat, Numeral.whole_concat]
    exact Binary32.readAs_step radix.two_le_base (isExact_of_le radix.base_le)
      (isExact_of_le (hd.le.trans radix.base_le)) hfront

/-- A number that is read as infinity is near 2^128 or above it. -/
theorem le_of_readAs_infinite {n : ℕ} (h : ReadAs n (.infinite false)) : 2 ^ 128 - 2 ^ 112 ≤ n := by
  by_contra! hlt
  have hle : (2 : ℚ) ^ 128 ≤ n * (1 + roundoff) ^ (2 * n.size) := h
  have hsize : n.size ≤ 128 := Nat.size_le.mpr (hlt.trans (by decide))
  have hn : (n : ℚ) ≤ 2 ^ 128 - 2 ^ 112 := by
    have : (n : ℚ) ≤ ((2 ^ 128 - 2 ^ 112 : ℕ) : ℚ) := Nat.cast_le.mpr hlt.le
    norm_num at this ⊢
    exact this
  have hbound : (n : ℚ) * (1 + roundoff) ^ (2 * n.size) ≤
      (2 ^ 128 - 2 ^ 112) * (1 + roundoff) ^ 256 :=
    mul_le_mul hn (pow_le_pow_right₀ one_le_one_add_roundoff (by omega))
      (one_add_roundoff_pow_nonneg _) (by norm_num)
  refine absurd (hle.trans hbound) ?_
  norm_num [roundoff]

/-- A number of many digits stays great, whatever is rounded away: each digit doubles it, and takes
    less than half of it. -/
theorem size_le_of_mul_pow_lt {n : ℕ} (h : n * (1 - roundoff) ^ (2 * n.size) < 2 ^ 128) :
    n.size ≤ 133 := by
  by_contra! hmany
  have hhalf : 2 ^ n.size ≤ 2 * n := two_pow_size_le (Nat.size_pos.mp (by omega))
  have hlong : (2 : ℚ) ^ 129 ≤ 2 * (n * (1 - roundoff) ^ (2 * n.size)) :=
    calc (2 : ℚ) ^ 129 ≤ (2 * (1 - roundoff) ^ 2) ^ 134 := by norm_num [roundoff]
      _ ≤ (2 * (1 - roundoff) ^ 2) ^ n.size := pow_le_pow_right₀ (by norm_num [roundoff]) hmany
      _ = 2 ^ n.size * (1 - roundoff) ^ (2 * n.size) := by rw [mul_pow, ← pow_mul]
      _ ≤ 2 * n * (1 - roundoff) ^ (2 * n.size) :=
        mul_le_mul_of_nonneg_right (by exact_mod_cast hhalf) (pow_nonneg one_sub_roundoff_nonneg _)
      _ = 2 * (n * (1 - roundoff) ^ (2 * n.size)) := mul_assoc _ _ _
  have hshort := hlong.trans_lt (mul_lt_mul_of_pos_left h two_pos)
  exact absurd hshort (by norm_num)

/-- A number that is read as a finite one is near 2^128 or below it. -/
theorem lt_of_readAs_finite {n : ℕ} {rank : Fin finiteRanks} (h : ReadAs n (.finite false rank)) :
    n < 2 ^ 128 + 2 ^ 113 := by
  have hlow : n * (1 - roundoff) ^ (2 * n.size) < 2 ^ 128 :=
    (Within.low h).trans_lt (lt_finiteRanks_iff.mp rank.isLt)
  have hsize := size_le_of_mul_pow_lt hlow
  by_contra! hge
  have hn : (2 ^ 128 + 2 ^ 113 : ℚ) ≤ n := by exact_mod_cast hge
  have hbound : (2 ^ 128 + 2 ^ 113) * (1 - roundoff) ^ (2 * 133) ≤
      n * (1 - roundoff) ^ (2 * n.size) :=
    mul_le_mul hn (pow_le_pow_of_le_one one_sub_roundoff_nonneg one_sub_roundoff_le_one (by omega))
      (pow_nonneg one_sub_roundoff_nonneg _) (Nat.cast_nonneg _)
  have hshort := hbound.trans_lt hlow
  rw [pow_mul] at hshort
  exact absurd hshort (by norm_num [roundoff])

/-! ## 3. Powers -/

namespace Binary32

/-- Not below a number, and without a sign. -/
def AtLeast (q : ℚ) : Binary32 → Prop
  | finite false rank => q ≤ magnitude rank
  | infinite false => True
  | _ => False

theorem AtLeast.ne_zero {q : ℚ} {rank : Fin finiteRanks} (h : AtLeast q (finite false rank))
    (hq : 0 < q) : rank.val ≠ 0 :=
  ne_zero_of_magnitude_pos (hq.trans_le h)

/-- What is at least a power of two is rounded to at least that: the power is a magnitude. -/
theorem atLeast_of_roundsTo {j rank : ℕ} {x : ℚ} (h : RoundsTo x rank) (hx : 2 ^ j ≤ x) :
    AtLeast (2 ^ j) (ofRank false rank) := by
  obtain ⟨bound, hbound⟩ := exists_magnitude_eq (m := 1) (by decide) j
  rw [Nat.one_mul, Nat.cast_pow, Nat.cast_two] at hbound
  unfold ofRank
  split
  · exact hbound ▸ magnitude_le (h.le_of_magnitude_le (hbound ▸ hx))
  · exact trivial

/-- **Products are at least a power of two if their factors are.** -/
theorem atLeast_mul {i j : ℕ} {x y : Binary32} (hx : AtLeast (2 ^ i) x) (hy : AtLeast (2 ^ j) y) :
    AtLeast (2 ^ (i + j)) (x.mul y) := by
  match x, y with
  | finite false r, finite false s =>
    have hproduct : (2 : ℚ) ^ (i + j) ≤ magnitude r * magnitude s := by
      rw [pow_add]
      exact mul_le_mul hx hy (by positivity) (le_trans (by positivity) hx)
    obtain ⟨rank, hmul, hround⟩ := mul_finite r s
    rw [hmul]
    exact atLeast_of_roundsTo hround hproduct
  | finite false r, infinite false =>
    rw [mul, if_neg (hx.ne_zero (by positivity))]
    exact trivial
  | infinite false, finite false s =>
    rw [mul, if_neg (hy.ne_zero (by positivity))]
    exact trivial
  | infinite false, infinite false => exact trivial

theorem atLeast_ofNat {j n : ℕ} (h : 2 ^ j ≤ n) : AtLeast (2 ^ j) (ofNat n) := by
  obtain ⟨rank, heq, hround⟩ := ofNat_eq n
  rw [heq]
  exact atLeast_of_roundsTo hround (by exact_mod_cast h)

/-- So is a power. -/
theorem atLeast_power {j : ℕ} {x : Binary32} (hx : AtLeast (2 ^ j) x) (k : ℕ) :
    AtLeast (2 ^ (k * j)) (x.power k) := by
  have hone : AtLeast (2 ^ 0) one := one_eq ▸ atLeast_ofNat (by decide)
  have hpower := powerOnto_of_mul (R := fun i y => AtLeast (2 ^ i) y) atLeast_mul k hone hx
  rwa [Nat.zero_add] at hpower

/-- What is at least 2^128 is infinite. -/
theorem AtLeast.eq_infinite {i : ℕ} {x : Binary32} (h : AtLeast (2 ^ i) x) (hi : 128 ≤ i) :
    x = infinite false := by
  match x with
  | finite false rank =>
    have hpow : (2 : ℚ) ^ 128 ≤ 2 ^ i := pow_le_pow_right₀ (by norm_num) hi
    exact absurd (hpow.trans h) (not_le.mpr (lt_finiteRanks_iff.mp rank.isLt))
  | infinite false => rfl

/-- The powers of ten up to the 42nd, of which those from the 39th on are infinite. -/
theorem power_ten_eq_infinite_iff :
    ∀ k < 43, ((ofNat 10).power k = infinite false ↔ 2 ^ 128 ≤ 10 ^ k) := by
  decide +kernel

end Binary32

/-- The powers of a base are at least one. -/
theorem Radix.one_le_power (radix : Radix) (k : ℕ) :
    Binary32.AtLeast 1 ((Binary32.ofNat radix.base).power k) := by
  have hbase : Binary32.AtLeast (2 ^ 0) (.ofNat radix.base) :=
    Binary32.atLeast_ofNat radix.base_pos
  have hpower := Binary32.atLeast_power hbase k
  rwa [Nat.mul_zero, pow_zero] at hpower

/-- **The powers of a base that are computed as infinity are those from 2^128 on.** -/
theorem Radix.power_base_eq_infinite_iff (radix : Radix) (k : ℕ) :
    (Binary32.ofNat radix.base).power k = .infinite false ↔ 2 ^ 128 ≤ radix.base ^ k := by
  by_cases hradix : radix = .decimal
  · subst hradix
    rcases Nat.lt_or_ge k 43 with hk | hk
    · exact Binary32.power_ten_eq_infinite_iff k hk
    · have hten : Binary32.AtLeast (2 ^ 3) (.ofNat 10) :=
        Binary32.atLeast_ofNat (by decide)
      have hgreat : 2 ^ 128 ≤ 10 ^ k :=
        (show 2 ^ 128 ≤ 10 ^ 43 by decide).trans (Nat.pow_le_pow_right (by decide) hk)
      exact iff_of_true ((Binary32.atLeast_power hten k).eq_infinite (by omega)) hgreat
  · obtain ⟨e, he⟩ := exists_base_eq hradix
    rw [he, Binary32.power_two_pow]
    refine ⟨fun hinfinite => ?_, Binary32.ofNat_of_le⟩
    by_contra! hlt
    rw [← Nat.pow_mul] at hlt hinfinite
    have hexact := Binary32.isExact_two_pow ((Nat.pow_lt_pow_iff_right (by decide)).mp hlt)
    obtain ⟨rank, heq, -⟩ := Binary32.ofNat_of_isExact hexact
    rw [heq] at hinfinite
    cases hinfinite

/-! ## 4. Quotients -/

/-- A finite value divided by one that is at least one is finite. -/
theorem Binary32.exists_div_finite {r s : Fin finiteRanks} (hs : AtLeast 1 (finite false s)) :
    ∃ rank, (finite false r).div (finite false s) = finite false rank := by
  obtain ⟨rank, hdiv, hround⟩ := div_finite r (hs.ne_zero one_pos)
  have hle : rank ≤ r := hround.le_of_le_magnitude (div_le_self (by rw [magnitude]; positivity) hs)
  exact ⟨⟨rank, hle.trans_lt r.isLt⟩, by rw [hdiv, ofRank, dif_pos (hle.trans_lt r.isLt)]⟩

/-- What the digits read as divided by a power of the base: infinity by a finite power stays, and by
    an infinite one is no number. -/
theorem Binary32.div_extent {n : ℕ} {x y : Binary32} (hx : ReadAs n x) (hy : AtLeast 1 y) :
    (x.div y = nan ↔ x = infinite false ∧ y = infinite false) ∧
      (x.div y = infinite false ↔ x = infinite false ∧ y ≠ infinite false) := by
  match x, y with
  | finite false r, finite false s =>
    obtain ⟨rank, heq⟩ := exists_div_finite (r := r) hy
    simp [heq]
  | finite false r, infinite false => simp [div, ofRank]
  | infinite false, finite false s => simp [div]
  | infinite false, infinite false => simp [div]

/-- **A numeral is never negative. It is no number if its digits and the power of the base behind its
    point are both read as infinity, and it is infinite if only the digits are.** A power is so from
    2^128 on, and digits from about there, as they are rounded one by one. -/
theorem value_extent {setting : Setting} {start : ℕ} {text : List Char} {p q : Progress}
    {value : Binary32} (h : (Pass.numeral setting start text).run p = (some value, q)) :
    let radix := setting.radixOf text
    let digits := setting.digitsOf text
    let power := radix.base ^ setting.fractionOf text
    let whole := Numeral.whole (.ofNat radix.base) digits
    value.isNegative = false ∧
      (value = .nan ↔ whole = .infinite false ∧ 2 ^ 128 ≤ power) ∧
      (value = .infinite false ↔ whole = .infinite false ∧ power < 2 ^ 128) ∧
      (whole = .infinite false → 2 ^ 128 - 2 ^ 112 ≤ Numeral.number radix.base digits) ∧
      (2 ^ 128 + 2 ^ 113 ≤ Numeral.number radix.base digits → whole = .infinite false) := by
  intro radix digits power whole
  have hread : ReadAs (Numeral.number radix.base digits) whole :=
    readAs_whole fun _ => Setting.digitsOf_lt
  have hpower := radix.power_base_eq_infinite_iff (setting.fractionOf text)
  have hextent := Binary32.div_extent hread (radix.one_le_power (setting.fractionOf text))
  rw [Ne, hpower, Nat.not_le] at hextent
  have hvalue := value_of_run h
  refine ⟨hvalue ▸ Numeral.isNegative_value _, ?_, ?_, fun hinfinite => ?_, fun hgreat => ?_⟩
  · rw [hvalue]
    exact hextent.1
  · rw [hvalue]
    exact hextent.2
  · exact le_of_readAs_infinite (hinfinite ▸ hread)
  · generalize whole = x at hread
    match x with
    | .finite false rank => exact absurd hgreat (Nat.not_le.mpr (lt_of_readAs_finite hread))
    | .infinite false => rfl

/-- Ten with 38 zeros behind the point is infinite: its digits spell 10^39. -/
theorem value_extent_ten :
    (Pass.numeral .literal 0 "10.00000000000000000000000000000000000000".toList).run ⟨0, .empty⟩ =
        (some (.infinite false), ⟨0, .empty⟩) ∧
      2 ^ 128 - 2 ^ 112 ≤ 10 * 10 ^ 38 ∧ 10 ^ 38 < 2 ^ 128 := by
  have hrun : (Pass.numeral .literal 0 "10.00000000000000000000000000000000000000".toList).run
      ⟨0, .empty⟩ = (some (.infinite false), ⟨0, .empty⟩) := by decide +kernel
  have hradix : Setting.literal.radixOf "10.00000000000000000000000000000000000000".toList =
      .decimal := by decide +kernel
  have hdigits : Setting.literal.digitsOf "10.00000000000000000000000000000000000000".toList =
      1 :: List.replicate 39 0 := by decide +kernel
  have hfraction : Setting.literal.fractionOf "10.00000000000000000000000000000000000000".toList =
      38 := by decide +kernel
  obtain ⟨-, -, hinfinite, hnear, -⟩ := value_extent hrun
  obtain ⟨hwhole, hpower⟩ := hinfinite.mp rfl
  have hnumber := hnear hwhole
  rw [hradix, hdigits, show Numeral.number Radix.decimal.base (1 :: List.replicate 39 0) =
    10 * 10 ^ 38 by decide +kernel] at hnumber
  rw [hradix, hfraction] at hpower
  exact ⟨hrun, hnumber, hpower⟩

/-- Not every numeral has a value that is a number, and an infinite one only if it is itself too
    great: one with 39 zeros behind the point is none. -/
theorem not_forall_value_finite :
    ¬ ∀ (setting : Setting) (start : ℕ) (text : List Char) (p q : Progress) (value : Binary32),
      (Pass.numeral setting start text).run p = (some value, q) →
        value ≠ .nan ∧ value.isNegative = false ∧ (value = .infinite false →
          (2 ^ 128 - 2 ^ 103 : ℚ) ≤
            Numeral.number (setting.radixOf text).base (setting.digitsOf text) /
              (setting.radixOf text).base ^ setting.fractionOf text) := by
  intro hall
  have hrun : (Pass.numeral .literal 0 "1.000000000000000000000000000000000000000".toList).run
      ⟨0, .empty⟩ = (some .nan, ⟨0, .empty⟩) := by decide +kernel
  exact (hall _ _ _ _ _ _ hrun).1 rfl

end SourceScan
