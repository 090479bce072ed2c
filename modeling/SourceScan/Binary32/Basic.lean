/-!
# Binary32/Basic.lean -- binary floating point with 24 digits

The numbers of the 32-bit binary format. The finite magnitudes are numbered in order of size, from
zero on; a magnitude's number is its `rank`, and the rank is at the same time the lower 31 bits of
the format. So the format's own order, neighbours and parity are those of natural numbers:

* `units r`: the magnitude of rank `r`, as a multiple of the least positive one, 2^-149;
  `units_lt`: magnitudes grow with their ranks.
* `nearestRank n d`: the rank of the magnitude nearest to `n / d` units, of two equally near ones
  the one of even rank. Ranks have no upper end here.
* `Binary32.ofRank`: ranks beyond the finite ones are infinite.
* `Binary32.bits`, `Binary32.ofBits`: the bit pattern. All patterns of a NaN are one value.

Powers are written `Nat.pow`, which is the same function whatever else is imported.
-/

namespace SourceScan

/-! ## 1. Ranks -/

/-- The number of finite magnitudes, which is the bit pattern of infinity. -/
abbrev finiteRanks : Nat := 0x7f800000

/-- The number of magnitudes in one binade: half the range of a 24-bit significand. -/
abbrev binade : Nat := 0x800000

/-- How many units make one: a unit is 2^-149. -/
abbrev unitsInOne : Nat := Nat.pow 2 149

/-- The magnitude of a rank, in units. Ranks below a binade count units; from there on each binade
    doubles the step. -/
def units (rank : Nat) : Nat :=
  if rank < binade then rank else (binade + rank % binade) * Nat.pow 2 (rank / binade - 1)

/-- The magnitudes of one binade, from its first one on. -/
theorem units_of_binade (e m : Nat) (hm : m < binade) :
    units ((e + 1) * binade + m) = (binade + m) * Nat.pow 2 e := by
  have hmod : ((e + 1) * binade + m) % binade = m := by
    rw [Nat.mul_add_mod_self_right, Nat.mod_eq_of_lt hm]
  have hdiv : ((e + 1) * binade + m) / binade = e + 1 := by
    rw [Nat.add_comm, Nat.add_mul_div_right _ _ (by decide), Nat.div_eq_of_lt hm, Nat.zero_add]
  have hge : ¬ (e + 1) * binade + m < binade := by rw [Nat.succ_mul]; omega
  rw [units, if_neg hge, hmod, hdiv, Nat.add_sub_cancel]

theorem units_of_lt {rank : Nat} (h : rank < binade) : units rank = rank :=
  if_pos h

/-- A rank is below the first binade, or a number of binades and a rest. -/
theorem rank_cases (rank : Nat) :
    rank < binade ∨ ∃ e m, m < binade ∧ rank = (e + 1) * binade + m := by
  rcases Nat.lt_or_ge rank binade with h | h
  · exact .inl h
  · refine .inr ⟨rank / binade - 1, rank % binade, Nat.mod_lt _ (by decide), ?_⟩
    have hpos : 0 < rank / binade := Nat.div_pos h (by decide)
    rw [Nat.sub_add_cancel hpos, Nat.mul_comm, Nat.div_add_mod]

/-- The next rank is a greater magnitude, also where the step doubles. -/
theorem units_lt_succ (rank : Nat) : units rank < units (rank + 1) := by
  rcases rank_cases rank with h | ⟨e, m, hm, rfl⟩
  · rw [units_of_lt h]
    rcases Nat.lt_or_ge (rank + 1) binade with h' | h'
    · rw [units_of_lt h']
      exact Nat.lt_succ_self rank
    · have hrank : rank + 1 = (0 + 1) * binade + 0 := by omega
      rw [hrank, units_of_binade 0 0 (by decide)]
      omega
  · rw [units_of_binade e m hm]
    rcases Nat.lt_or_ge (m + 1) binade with h' | h'
    · rw [Nat.add_assoc, units_of_binade e (m + 1) h']
      exact Nat.mul_lt_mul_of_pos_right (by omega) (Nat.two_pow_pos e)
    · have hrank : (e + 1) * binade + m + 1 = (e + 1 + 1) * binade + 0 := by
        rw [Nat.succ_mul (e + 1)]
        omega
      have hdouble : Nat.pow 2 (e + 1) = 2 * Nat.pow 2 e := Nat.pow_succ'
      rw [hrank, units_of_binade (e + 1) 0 (by decide), hdouble, ← Nat.mul_assoc]
      exact Nat.mul_lt_mul_of_pos_right (by omega) (Nat.two_pow_pos e)

/-- **Magnitudes grow with their ranks.** -/
theorem units_lt {rank rank' : Nat} (h : rank < rank') : units rank < units rank' := by
  induction h with
  | refl => exact units_lt_succ rank
  | step _ ih => exact Nat.lt_trans ih (units_lt_succ _)

theorem units_pos {rank : Nat} (h : 0 < rank) : 0 < units rank :=
  Nat.zero_lt_of_lt (units_lt h)

/-- The rank of the magnitude nearest to `num / den` units, to even on a tie. The quotient is
    scaled by `2 ^ e` until it has 24 binary digits or counts whole units. -/
def nearestRank (num den : Nat) : Nat :=
  let e := Nat.log2 (num / den) - 23
  let step := den * Nat.pow 2 e
  let m := num / step
  let r := num % step
  e * binade + (if 2 * r < step then m else if step < 2 * r then m + 1 else m + m % 2)

/-! ## 2. Values -/

/-- A number of the format. -/
inductive Binary32 where
  | finite (negative : Bool) (rank : Fin finiteRanks)
  | infinite (negative : Bool)
  | nan
deriving DecidableEq, Repr

namespace Binary32

/-- The value of a rank; infinite beyond the finite ranks. -/
def ofRank (negative : Bool) (rank : Nat) : Binary32 :=
  if h : rank < finiteRanks then .finite negative ⟨rank, h⟩ else .infinite negative

/-- The value nearest to `num / den` units with a sign. -/
def round (negative : Bool) (num den : Nat) : Binary32 :=
  ofRank negative (nearestRank num den)

/-- Zero without a sign. -/
def zero : Binary32 := ofRank false 0

/-- One. -/
def one : Binary32 := round false unitsInOne 1

/-- The value nearest to a natural number. -/
def ofNat (n : Nat) : Binary32 :=
  round false (n * unitsInOne) 1

/-- The bit pattern; a NaN has the pattern of a quiet one without a sign or a payload. -/
def bits : Binary32 → Nat
  | finite negative rank => (if negative then 0x80000000 else 0) + rank
  | infinite negative => (if negative then 0x80000000 else 0) + finiteRanks
  | nan => 0x7fc00000

/-- The value of a bit pattern, of which 32 bits count. -/
def ofBits (pattern : Nat) : Binary32 :=
  let negative := decide (0x80000000 ≤ pattern % 0x100000000)
  let rank := pattern % 0x80000000
  if finiteRanks < rank then .nan else ofRank negative rank

end Binary32

end SourceScan
