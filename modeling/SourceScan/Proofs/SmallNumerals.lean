import Mathlib.Data.List.Induction
import Mathlib.Data.Nat.Digits.Defs
import SourceScan.Proofs.Numerals
import SourceScan.Proofs.Rounding

/-!
# Proofs/SmallNumerals.lean -- small numerals are read as they are meant

Reading digits from the left rounds twice for each of them. As long as the number they spell has 24
binary digits, nothing is rounded away, and if the power of the base behind the point is a magnitude
too, only the quotient of the two is rounded.

* `Numeral.number`: the number that digits spell; `whole_eq`: a small one is read exactly.
* `powerOnto_of_mul`: what products of powers have, powers have.
* `power_base`: the powers that are exact, and `isExact_base_pow_iff`: which they are.
* **`value_of_small`**: the value of a small numeral is the rounded quotient.
-/

namespace SourceScan

/-! ## 1. Digits -/

theorem Binary32.zero_eq : zero = ofNat 0 := by
  decide +kernel

namespace Numeral

/-- The number that digits of a base spell, the first of them counting most. -/
def number (base : ℕ) (digits : List ℕ) : ℕ :=
  Nat.ofDigits base digits.reverse

variable {base d : ℕ} {digits : List ℕ}

@[simp] theorem number_nil (base : ℕ) : number base [] = 0 := rfl

theorem number_concat (base : ℕ) (digits : List ℕ) (d : ℕ) :
    number base (digits ++ [d]) = number base digits * base + d := by
  rw [number, List.reverse_concat, Nat.ofDigits_cons, Nat.add_comm, Nat.mul_comm, number]

theorem whole_concat (x : Binary32) (digits : List ℕ) (d : ℕ) :
    whole x (digits ++ [d]) = ((whole x digits).mul x).add (.ofNat d) := by
  rw [whole, List.foldl_append]
  rfl

/-- Digits ahead of others spell no greater number. -/
theorem number_le_concat (hbase : 0 < base) : number base digits ≤ number base (digits ++ [d]) := by
  rw [number_concat]
  exact (Nat.le_mul_of_pos_right _ hbase).trans (Nat.le_add_right _ _)

/-- **Digits that spell a number of 24 binary digits are read as this number.** -/
theorem whole_eq (hbase : 0 < base) (hsmall : base ≤ 2 ^ 24)
    (h : number base digits ≤ 2 ^ 24) :
    whole (.ofNat base) digits = .ofNat (number base digits) := by
  induction digits using List.reverseRecOn with
  | nil => exact Binary32.zero_eq
  | append_singleton digits d ih =>
    have hfront := (number_le_concat hbase).trans h
    rw [number_concat] at h
    have hproduct : number base digits * base ≤ 2 ^ 24 := (Nat.le_add_right _ _).trans h
    have hdigit : d ≤ 2 ^ 24 := (Nat.le_add_left _ _).trans h
    rw [whole_concat, ih hfront, number_concat,
      Binary32.mul_ofNat (isExact_of_le hfront) (isExact_of_le hsmall),
      Binary32.add_ofNat (isExact_of_le hproduct) (isExact_of_le hdigit)]

end Numeral

/-! ## 2. Powers -/

namespace Binary32

/-- **What holds of products of powers holds of powers**, however they are squared. -/
theorem powerOnto_of_mul {R : ℕ → Binary32 → Prop}
    (hmul : ∀ {i j x y}, R i x → R j y → R (i + j) (x.mul y)) {i j : ℕ} {acc x : Binary32} (n : ℕ)
    (hacc : R i acc) (hx : R j x) : R (i + n * j) (powerOnto acc x n) := by
  induction n using Nat.strong_induction_on generalizing i j acc x with
  | _ n ih =>
    have hodd : R (i + n % 2 * j) (if n % 2 = 1 then acc.mul x else acc) := by
      rcases Nat.mod_two_eq_zero_or_one n with h | h
      · rw [h, if_neg (by decide), Nat.zero_mul]
        exact hacc
      · rw [h, if_pos rfl, Nat.one_mul]
        exact hmul hacc hx
    rw [powerOnto]
    split
    · next hzero =>
      have hn : n = n % 2 := by omega
      rw [← hn] at hodd
      rwa [← hn]
    · next hne =>
      have hsquare := ih (n / 2) (by omega) hodd (hmul hx hx)
      have hexponent : i + n % 2 * j + n / 2 * (j + j) = i + n * j := by
        conv_rhs => rw [← Nat.div_add_mod n 2]
        ring
      rwa [hexponent] at hsquare

theorem one_eq : one = ofNat 1 := by
  rw [one, ofNat, Nat.one_mul]

/-- A natural number from 2^128 on is infinite. -/
theorem ofNat_of_le {n : ℕ} (h : 2 ^ 128 ≤ n) : ofNat n = .infinite false := by
  obtain ⟨rank, heq, hround⟩ := ofNat_eq n
  have hrank : finiteRanks ≤ rank := by
    refine hround.le_of_magnitude_le ?_
    rw [magnitude_finiteRanks]
    exact_mod_cast h
  rw [heq, ofRank, dif_neg (Nat.not_lt.mpr hrank)]

/-- A positive natural number is a positive magnitude, or infinite. -/
theorem ofNat_of_pos {n : ℕ} (h : 0 < n) : ofNat n = .infinite false ∨
    ∃ rank : Fin finiteRanks, ofNat n = .finite false rank ∧ rank.val ≠ 0 := by
  obtain ⟨rank, heq, hround⟩ := ofNat_eq n
  obtain ⟨one, -, hone⟩ := isExact_of_le (n := 1) (by decide)
  have hle : one ≤ rank := hround.le_of_magnitude_le (by rw [hone]; exact_mod_cast h)
  have hpos : one ≠ 0 := ne_zero_of_magnitude_pos (by norm_num [hone])
  rw [heq, ofRank]
  split
  · exact .inr ⟨_, rfl, Nat.ne_of_gt (hle.trans_lt' (Nat.pos_of_ne_zero hpos))⟩
  · exact .inl rfl

/-- What is infinite stays so when multiplied by a positive number, -/
theorem infinite_mul_ofNat {n : ℕ} (h : 0 < n) :
    (infinite false).mul (ofNat n) = infinite false := by
  rcases ofNat_of_pos h with hn | ⟨rank, hn, hpos⟩
  · rw [hn]
    rfl
  · rw [hn, mul, if_neg hpos]
    rfl

/-- and from either side. -/
theorem ofNat_mul_infinite {n : ℕ} (h : 0 < n) :
    (ofNat n).mul (infinite false) = infinite false := by
  rcases ofNat_of_pos h with hn | ⟨rank, hn, hpos⟩
  · rw [hn]
    rfl
  · rw [hn, mul, if_neg hpos]
    rfl

theorem isExact_two_pow {e : ℕ} (h : e < 128) : IsExact (2 ^ e) := by
  have hlt : 1 * 2 ^ e < 2 ^ 128 := by
    rw [Nat.one_mul]
    exact Nat.pow_lt_pow_right (by decide) h
  have hexact := isExact_mul_two_pow (by decide) hlt
  rwa [Nat.one_mul] at hexact

/-- **Powers of two are multiplied as numbers**, infinite ones included. -/
theorem mul_two_pow (i j : ℕ) : (ofNat (2 ^ i)).mul (ofNat (2 ^ j)) = ofNat (2 ^ (i + j)) := by
  have hinfinite : 128 ≤ i + j → ofNat (2 ^ (i + j)) = infinite false :=
    fun h => ofNat_of_le (Nat.pow_le_pow_right (by decide) h)
  rcases Nat.lt_or_ge i 128 with hi | hi
  · rcases Nat.lt_or_ge j 128 with hj | hj
    · rw [mul_ofNat (isExact_two_pow hi) (isExact_two_pow hj), Nat.pow_add]
    · rw [ofNat_of_le (Nat.pow_le_pow_right (by decide) hj), hinfinite (by omega),
        ofNat_mul_infinite (Nat.two_pow_pos i)]
  · rw [ofNat_of_le (Nat.pow_le_pow_right (by decide) hi), hinfinite (by omega),
      infinite_mul_ofNat (Nat.two_pow_pos j)]

/-- Powers of powers of two are rounded as numbers. -/
theorem power_two_pow (e k : ℕ) : (ofNat (2 ^ e)).power k = ofNat ((2 ^ e) ^ k) := by
  have hpower : powerOnto one (ofNat (2 ^ e)) k = ofNat (2 ^ (0 + k * e)) := by
    refine powerOnto_of_mul (R := fun i x => x = ofNat (2 ^ i)) ?_ k one_eq rfl
    rintro i j x y rfl rfl
    exact mul_two_pow i j
  rwa [Nat.zero_add, Nat.mul_comm, Nat.pow_mul] at hpower

/-- The powers of ten up to the tenth. -/
theorem power_ten : ∀ k ≤ 10, (ofNat 10).power k = ofNat (10 ^ k) := by
  decide +kernel

end Binary32

/-! ## 3. Bases -/

namespace Radix

variable {radix : Radix} {k : ℕ}

theorem two_le_base (radix : Radix) : 2 ≤ radix.base := by
  cases radix <;> decide

theorem base_pos (radix : Radix) : 0 < radix.base :=
  Nat.zero_lt_of_lt radix.two_le_base

theorem base_le (radix : Radix) : radix.base ≤ 2 ^ 24 := by
  cases radix <;> decide

/-- All bases but ten are powers of two. -/
theorem exists_base_eq (h : radix ≠ .decimal) : ∃ e, radix.base = 2 ^ e := by
  cases radix with
  | binary => exact ⟨1, rfl⟩
  | octal => exact ⟨3, rfl⟩
  | decimal => exact absurd rfl h
  | hexadecimal => exact ⟨4, rfl⟩

/-- **The powers of a base that are magnitudes are computed as what they are.** -/
theorem power_base (h : if radix = .decimal then k ≤ 10 else radix.base ^ k ≤ 2 ^ 127) :
    (Binary32.ofNat radix.base).power k = .ofNat (radix.base ^ k) ∧ IsExact (radix.base ^ k) := by
  split at h
  · next hradix =>
    subst hradix
    refine ⟨Binary32.power_ten k h, ?_⟩
    have hpow : decimal.base ^ k = 5 ^ k * 2 ^ k := by
      rw [← Nat.mul_pow]
      rfl
    have hfive : 5 ^ k ≤ 5 ^ 10 := Nat.pow_le_pow_right (by decide) h
    have htwo : 2 ^ k ≤ 2 ^ 10 := Nat.pow_le_pow_right (by decide) h
    rw [hpow]
    exact isExact_mul_two_pow (hfive.trans (by decide))
      ((Nat.mul_le_mul hfive htwo).trans_lt (by decide))
  · next hradix =>
    obtain ⟨e, he⟩ := exists_base_eq hradix
    rw [he] at h ⊢
    refine ⟨Binary32.power_two_pow e k, ?_⟩
    rw [← Nat.pow_mul] at h ⊢
    exact Binary32.isExact_two_pow (Nat.lt_succ_of_le ((Nat.pow_le_pow_iff_right (by decide)).mp h))

end Radix

/-- Every magnitude is a number of 24 binary digits and zeros behind it, in units. -/
theorem exists_steps_of_units (rank : ℕ) : ∃ m e, m < 2 ^ 24 ∧ units rank = m * 2 ^ e := by
  rcases rank_cases rank with h | ⟨e, m, hm, rfl⟩
  · exact ⟨rank, 0, h.trans (by decide), by rw [units_of_lt h, pow_zero, Nat.mul_one]⟩
  · exact ⟨binade + m, e, (Nat.add_lt_add_left hm binade).trans_le (by decide),
      units_of_binade e m hm⟩

/-- Powers of ten from the eleventh on are no magnitudes: their power of five has more than 24 binary
    digits. -/
theorem le_of_isExact_ten_pow {k : ℕ} (h : IsExact (10 ^ k)) : k ≤ 10 := by
  obtain ⟨rank, -, hrank⟩ := h
  obtain ⟨m, e, hm, hunits⟩ := exists_steps_of_units rank
  have heq : m * 2 ^ e = 5 ^ k * (2 ^ k * unitsInOne) := by
    rw [magnitude, div_eq_iff unitsInOne_pos.ne', hunits] at hrank
    rw [← Nat.mul_assoc, ← Nat.mul_pow]
    exact_mod_cast hrank
  have hdvd : 5 ^ k ∣ m := by
    have hcoprime : Nat.Coprime (5 ^ k) (2 ^ e) := Nat.Coprime.pow k e (by decide)
    exact hcoprime.dvd_of_dvd_mul_right (heq ▸ Nat.dvd_mul_right _ _)
  have hpos : 0 < m := by
    refine Nat.pos_of_ne_zero fun hzero => ?_
    have hright : 0 < 5 ^ k * (2 ^ k * unitsInOne) :=
      Nat.mul_pos (by positivity) (Nat.mul_pos (by positivity) (Nat.two_pow_pos 149))
    rw [hzero, Nat.zero_mul] at heq
    exact hright.ne heq
  have hlt : 5 ^ k < 5 ^ 11 := (Nat.le_of_dvd hpos hdvd).trans_lt (hm.trans (by decide))
  exact Nat.le_of_lt_succ ((Nat.pow_lt_pow_iff_right (by decide)).mp hlt)

/-- Exact numbers are below 2^128. -/
theorem IsExact.lt {n : ℕ} (h : IsExact n) : n < 2 ^ 128 := by
  obtain ⟨rank, hlt, hrank⟩ := h
  rw [lt_finiteRanks_iff, hrank] at hlt
  exact_mod_cast hlt

/-- **Which powers of a base are exact.** -/
theorem Radix.isExact_base_pow_iff (radix : Radix) (k : ℕ) : IsExact (radix.base ^ k) ↔
    if radix = .decimal then k ≤ 10 else radix.base ^ k ≤ 2 ^ 127 := by
  refine ⟨fun h => ?_, fun h => (power_base h).2⟩
  split
  · next hradix =>
    subst hradix
    exact le_of_isExact_ten_pow h
  · next hradix =>
    obtain ⟨e, he⟩ := exists_base_eq hradix
    have hlt := h.lt
    rw [he, ← Nat.pow_mul] at hlt ⊢
    have := (Nat.pow_lt_pow_iff_right (by decide)).mp hlt
    exact Nat.pow_le_pow_right (by decide) (by omega)

/-! ## 4. Values -/

/-- A number of 24 binary digits divided by a power of two is a magnitude. -/
theorem exists_magnitude_div {n e : ℕ} (hn : n ≤ 2 ^ 24) (he : e ≤ 149) :
    ∃ rank, magnitude rank = n / 2 ^ e := by
  obtain ⟨rank, hrank⟩ := exists_units_eq (149 - e) (show n ≤ 2 * binade from hn)
  have hunits : units rank * 2 ^ e = n * unitsInOne := by
    rw [hrank, Nat.mul_assoc, ← Nat.pow_add, Nat.sub_add_cancel he]
  refine ⟨rank, ?_⟩
  rw [magnitude, div_eq_div_iff unitsInOne_pos.ne' (by positivity)]
  exact_mod_cast hunits

/-- What is not greater than a number of 24 binary digits rounds to a finite magnitude. -/
theorem lt_finiteRanks_of_le {x : ℚ} {rank : ℕ} (h : RoundsTo x rank) (hx : x ≤ (2 ^ 24 : ℕ)) :
    rank < finiteRanks := by
  obtain ⟨bound, hlt, hbound⟩ := isExact_of_le (n := 2 ^ 24) le_rfl
  exact (h.le_of_le_magnitude (hbound ▸ hx)).trans_lt hlt

/-- The quotient that a small numeral is, rounded once. -/
theorem exists_value_eq {radix : Radix} {digits : List ℕ} {k : ℕ}
    (hnumber : Numeral.number radix.base digits ≤ 2 ^ 24) (hexact : IsExact (radix.base ^ k)) :
    ∃ rank, Numeral.value ⟨radix, digits, k⟩ = .ofRank false rank ∧
      RoundsTo (Numeral.number radix.base digits / (radix.base : ℚ) ^ k) rank := by
  have hpower := (Radix.power_base ((radix.isExact_base_pow_iff k).mp hexact)).1
  have hwhole := Numeral.whole_eq radix.base_pos radix.base_le hnumber
  rw [Numeral.value]
  dsimp only
  rw [hwhole, hpower, ← Nat.cast_pow]
  exact Binary32.div_ofNat (isExact_of_le hnumber) hexact (Nat.pow_pos radix.base_pos)

/-- Where there is no fraction, or the base is a power of two, the quotient is a magnitude. -/
theorem exists_magnitude_quotient {radix : Radix} {n k : ℕ} (hn : n ≤ 2 ^ 24)
    (hexact : IsExact (radix.base ^ k)) (h : k = 0 ∨ radix ≠ .decimal) :
    ∃ rank, magnitude rank = n / (radix.base : ℚ) ^ k := by
  rcases h with rfl | hradix
  · obtain ⟨rank, hrank⟩ := exists_magnitude_div hn (Nat.zero_le 149)
    exact ⟨rank, by rw [hrank, pow_zero, pow_zero]⟩
  · obtain ⟨e, he⟩ := Radix.exists_base_eq hradix
    have hlt := hexact.lt
    rw [he, ← Nat.pow_mul] at hlt
    have hle : e * k ≤ 149 := by
      have := (Nat.pow_lt_pow_iff_right (by decide)).mp hlt
      omega
    obtain ⟨rank, hrank⟩ := exists_magnitude_div hn hle
    exact ⟨rank, by rw [hrank, he, pow_mul]; push_cast; rfl⟩

/-- **A numeral whose digits spell a number of 24 binary digits, over a power of the base that is a
    magnitude, has the value that is nearest to the quotient.** Nothing is rounded where there is no
    fraction, or where the base is a power of two. -/
theorem value_of_small {start : ℕ} {text : List Char} {p q : Progress} {value : Binary32}
    (h : (Pass.numeral .literal start text).run p = (some value, q)) :
    let radix := Setting.literal.radixOf text
    let number := Numeral.number radix.base (Setting.literal.digitsOf text)
    let k := Setting.literal.fractionOf text
    (IsExact (radix.base ^ k) ↔
      if radix = .decimal then k ≤ 10 else radix.base ^ k ≤ 2 ^ 127) ∧
    (number ≤ 2 ^ 24 → IsExact (radix.base ^ k) → ∃ rank : Fin finiteRanks,
      value = .finite false rank ∧ NearestEven (number / (radix.base : ℚ) ^ k) rank ∧
        (k = 0 ∨ radix ≠ .decimal → magnitude rank = number / (radix.base : ℚ) ^ k)) := by
  intro radix number k
  refine ⟨radix.isExact_base_pow_iff k, fun hnumber hexact => ?_⟩
  obtain ⟨rank, heq, hrounds⟩ := exists_value_eq hnumber hexact
  have hquotient : (number : ℚ) / (radix.base : ℚ) ^ k ≤ (2 ^ 24 : ℕ) := by
    have hone : (1 : ℚ) ≤ (radix.base : ℚ) ^ k := by exact_mod_cast Nat.pow_pos radix.base_pos
    exact (div_le_self (Nat.cast_nonneg _) hone).trans (Nat.cast_le.mpr hnumber)
  have hfinite := lt_finiteRanks_of_le hrounds hquotient
  refine ⟨⟨rank, hfinite⟩, ?_, hrounds.nearest, fun hcase => ?_⟩
  · rw [value_of_run h, heq, Binary32.ofRank, dif_pos hfinite]
  · obtain ⟨rank', hrank'⟩ := exists_magnitude_quotient hnumber hexact hcase
    rw [← hrank']
    exact congrArg magnitude (hrounds.unique (hrank' ▸ roundsTo_magnitude rank'))

/-- One tenth, with a prefix, an apostrophe and zeros, is no magnitude, and is read as the nearest. -/
theorem value_of_small_tenth :
    (Pass.numeral .literal 0 "0d0'0.1".toList).run ⟨0, .empty⟩ =
        (some (.finite false ⟨0x3dcccccd, by decide⟩), ⟨0, .empty⟩) ∧
      NearestEven (1 / 10) 0x3dcccccd := by
  have hrun : (Pass.numeral .literal 0 "0d0'0.1".toList).run ⟨0, .empty⟩ =
      (some (.finite false ⟨0x3dcccccd, by decide⟩), ⟨0, .empty⟩) := by decide +kernel
  have hradix : Setting.literal.radixOf "0d0'0.1".toList = .decimal := by decide
  have hdigits : Setting.literal.digitsOf "0d0'0.1".toList = [0, 0, 1] := by decide
  have hfraction : Setting.literal.fractionOf "0d0'0.1".toList = 1 := by decide
  have hsmall := value_of_small hrun
  rw [hradix, hdigits, hfraction] at hsmall
  obtain ⟨hexact, hround⟩ := hsmall
  obtain ⟨rank, hrank, hnearest, -⟩ := hround (by decide) (hexact.mpr (by decide))
  cases hrank
  refine ⟨hrun, ?_⟩
  have hnumber : Numeral.number Radix.decimal.base [0, 0, 1] = 1 := by decide
  rwa [hnumber, Nat.cast_one, pow_one, show (Radix.decimal.base : ℚ) = 10 from rfl] at hnearest

end SourceScan
