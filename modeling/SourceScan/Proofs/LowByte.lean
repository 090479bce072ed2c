import SourceScan.Proofs.NumericEscapes

/-!
# Proofs/LowByte.lean -- the character of a great number

An escape of a number above 255 stands for a character of one byte. The byte is taken from what the
digits are read as, held to 32 bits, and this is the number itself only as long as it has 24 binary
digits.

* `Kept n m`: what may have become of a number `n` that is read digit by digit.
* `atLeast_whole_of_le`: a number from about 2^32 on is read as 2^32 or more.
* **`code_of_numericEscape`**: the code is the low byte of what is left of the number.
* `not_forall_code_eq_mod`: it need not be the low byte of the number.
-/

namespace SourceScan

open Text

/-- What may have become of a number that is read digit by digit: up to 2^24 it is kept. A greater one
    is a number of 24 binary digits with zeros behind them, nearby as long as there are few digits,
    and does not fall below 2^32 again. -/
structure Kept (n m : ℕ) : Prop where
  small : n ≤ 2 ^ 24 → m = n
  great : 2 ^ 24 < n → ∃ digits zeros, 2 ^ 23 ≤ digits ∧ digits < 2 ^ 24 ∧ 0 < zeros ∧
    m = digits * 2 ^ zeros
  near : n < 2 ^ 33 → |(m : ℚ) - n| ≤ n / 2 ^ 17
  beyond : 2 ^ 32 + 2 ^ 15 ≤ n → 2 ^ 32 ≤ m

/-- Magnitudes from 2^24 on are numbers of 24 binary digits with zeros behind them. -/
theorem exists_digits_of_le_magnitude {rank : ℕ} (h : 2 ^ 24 ≤ magnitude rank) :
    ∃ digits zeros, 2 ^ 23 ≤ digits ∧ digits < 2 ^ 24 ∧ 0 < zeros ∧
      magnitude rank = (digits * 2 ^ zeros : ℕ) := by
  have hunits : 2 ^ 24 * 2 ^ 149 ≤ units rank := by
    rw [magnitude, le_div_iff₀ unitsInOne_pos] at h
    exact_mod_cast h
  rcases rank_cases rank with hlt | ⟨e, m, hm, rfl⟩
  · rw [units_of_lt hlt] at hunits
    exact absurd hunits (Nat.not_le.mpr (hlt.trans (by decide)))
  · have hrank : units ((e + 1) * binade + m) = (binade + m) * 2 ^ e := units_of_binade e m hm
    have hm' : binade + m < 2 ^ 24 := (Nat.add_lt_add_left hm binade).trans_le (by decide)
    have he : 149 < e := by
      rw [hrank] at hunits
      have hlt := hunits.trans_lt (Nat.mul_lt_mul_of_pos_right hm' (Nat.two_pow_pos e))
      exact (Nat.pow_lt_pow_iff_right (by decide)).mp (Nat.lt_of_mul_lt_mul_left hlt)
    obtain ⟨zeros, rfl⟩ := Nat.exists_eq_add_of_lt he
    refine ⟨binade + m, zeros + 1, Nat.le_add_right binade m, hm', Nat.succ_pos _, ?_⟩
    have hsplit : (binade + m) * 2 ^ (149 + zeros + 1) =
        (binade + m) * 2 ^ (zeros + 1) * unitsInOne := by
      rw [Nat.add_assoc, Nat.pow_add, Nat.mul_comm (2 ^ 149), Nat.mul_assoc]
    rw [magnitude, hrank, hsplit, Nat.cast_mul _ unitsInOne,
      mul_div_cancel_right₀ _ unitsInOne_pos.ne']

/-- As many roundings as a number of 33 binary digits takes change it by the 2^17th part at most. -/
theorem Within.abs_sub_le {x y : ℚ} (h : Within 66 x y) (hx : 0 ≤ x) : |y - x| ≤ x / 2 ^ 17 := by
  have hless : 1 - 1 / 2 ^ 17 ≤ (1 - roundoff) ^ 66 := by norm_num [roundoff]
  have hmore : (1 + roundoff) ^ 66 ≤ 1 + 1 / 2 ^ 17 := by norm_num [roundoff]
  have hlow := (mul_le_mul_of_nonneg_left hless hx).trans h.low
  have hhigh := h.high.trans (mul_le_mul_of_nonneg_left hmore hx)
  rw [abs_le]
  constructor <;> linarith

namespace Radix

variable {radix : Radix} {run : List Char}

/-- **A number that is 2^32 and a little more is read as 2^32 at least**: the first digits that spell
    so much are few, so little is rounded away. -/
theorem atLeast_whole_of_le {digits : List ℕ} (hdigits : ∀ d ∈ digits, d < radix.base)
    (h : 2 ^ 32 + 2 ^ 15 ≤ Numeral.number radix.base digits) :
    Binary32.AtLeast (2 ^ 32) (Numeral.whole (.ofNat radix.base) digits) := by
  refine atLeast_whole_of_first (by decide) hdigits (fun front d hmem hless hmore => ?_) h
  have hread := readAs_whole hmem
  have hsize : (Numeral.number radix.base (front ++ [d])).size ≤ 37 := by
    have hbase : radix.base ≤ 16 := by cases radix <;> decide
    have hd : d < 16 := (hmem d (by simp)).trans_le hbase
    have hproduct := Nat.mul_le_mul hless.le hbase
    rw [Nat.size_le, Numeral.number_concat]
    omega
  generalize Numeral.whole (.ofNat radix.base) (front ++ [d]) = x at hread
  generalize Numeral.number radix.base (front ++ [d]) = n at hread hmore hsize
  match x with
  | .finite false rank =>
    have hwithin : Within 74 n (magnitude rank) := Within.of_le hread (Nat.cast_nonneg n) (by omega)
    have hn : (2 ^ 32 + 2 ^ 15 : ℚ) ≤ n := by exact_mod_cast hmore
    have hkept : (2 : ℚ) ^ 32 ≤ (2 ^ 32 + 2 ^ 15) * (1 - roundoff) ^ 74 := by norm_num [roundoff]
    exact hkept.trans ((mul_le_mul_of_nonneg_right hn
      (pow_nonneg one_sub_roundoff_nonneg 74)).trans hwithin.low)
  | .infinite false => exact trivial

/-- **What a number is read as is what is kept of it**, and the value of an escape is cut to this. -/
theorem exists_kept (radix : Radix) (run : List Char) : ∃ m, Kept (radix.numberOf run) m ∧
    (Numeral.ofDigits radix run).value.truncate 0xffffffff = min m 0xffffffff := by
  have hdigits : ∀ d ∈ run.filterMap radix.digit?, d < radix.base := fun _ => lt_base_of_mem
  have hread : ReadAs (radix.numberOf run) (Numeral.ofDigits radix run).value :=
    value_ofDigits radix run ▸ readAs_whole hdigits
  have hgreat : 2 ^ 24 < radix.numberOf run →
      Binary32.AtLeast (2 ^ 24) (Numeral.ofDigits radix run).value := fun h =>
    value_ofDigits radix run ▸ atLeast_whole (by decide) hdigits h.le
  have hbeyond : 2 ^ 32 + 2 ^ 15 ≤ radix.numberOf run →
      Binary32.AtLeast (2 ^ 32) (Numeral.ofDigits radix run).value := fun h =>
    value_ofDigits radix run ▸ atLeast_whole_of_le hdigits h
  rcases Nat.lt_or_ge (2 ^ 24) (radix.numberOf run) with hlarge | hsmall
  · generalize (Numeral.ofDigits radix run).value = x at hread hgreat hbeyond
    match x with
    | .finite false rank =>
      obtain ⟨digits, zeros, hlow, hhigh, hzeros, hmagnitude⟩ :=
        exists_digits_of_le_magnitude (hgreat hlarge)
      refine ⟨digits * 2 ^ zeros, ⟨fun h => absurd h (Nat.not_le.mpr hlarge),
        fun _ => ⟨digits, zeros, hlow, hhigh, hzeros, rfl⟩, fun hfew => ?_, fun h => ?_⟩,
        Binary32.truncate_finite _ hmagnitude⟩
      · have hsize : (radix.numberOf run).size ≤ 33 := Nat.size_le.mpr hfew
        have hwithin : Within 66 (radix.numberOf run) (magnitude rank) :=
          Within.of_le hread (Nat.cast_nonneg _) (by omega)
        exact hmagnitude ▸ hwithin.abs_sub_le (Nat.cast_nonneg _)
      · have hle : (2 : ℚ) ^ 32 ≤ magnitude rank := hbeyond h
        rw [hmagnitude] at hle
        exact_mod_cast hle
    | .infinite false =>
      have hhuge := le_of_readAs_infinite hread
      refine ⟨2 ^ 23 * 2 ^ 105, ⟨fun h => absurd h (Nat.not_le.mpr hlarge),
        fun _ => ⟨2 ^ 23, 105, le_rfl, by decide, by decide, rfl⟩, fun hfew => ?_,
        fun _ => by decide⟩, by decide⟩
      exact absurd (hhuge.trans_lt hfew) (by decide)
  · obtain ⟨rank, heq, hmagnitude⟩ := Binary32.ofNat_of_isExact (isExact_of_le hsmall)
    refine ⟨radix.numberOf run, ⟨fun _ => rfl, fun h => absurd hsmall (Nat.not_le.mpr h),
      fun _ => ?_, fun h => absurd (h.trans hsmall) (by decide)⟩, ?_⟩
    · rw [sub_self, abs_zero]
      positivity
    · rw [value_of_le hsmall, heq, Binary32.truncate_finite _ hmagnitude]

end Radix

/-- **The code of a numeric escape is the low byte of what is kept of its number**, held to 32 bits. So
    it is the low byte of the number up to 2^24; beyond, the zeros that take the place of binary digits
    are in it, and from about 2^32 on it is 255. -/
theorem code_of_numericEscape {front selector run rest : List Char} {radix : Radix}
    (hselects : Escape.Selects selector radix (run ++ rest))
    (hrun : LongestRun radix.isDigit run rest) (hne : run ≠ []) :
    ∃ d m, Kept (radix.numberOf run) m ∧ d.toNat = min m (2 ^ 32 - 1) % 256 ∧
      (radix.numberOf run ≤ 2 ^ 24 → d.toNat = radix.numberOf run % 256) ∧
      (2 ^ 32 + 2 ^ 15 ≤ radix.numberOf run → d.toNat = 255) ∧
      ∀ log, ∃ q, (Pass.escape (Bytes.of (front ++ '\\' :: (selector ++ (run ++ rest))))).run
        ⟨width front, log⟩ = (some (some d), q) := by
  obtain ⟨m, hkept, htruncate⟩ := radix.exists_kept run
  have hcode : (Escape.byteChar (Numeral.ofDigits radix run).value).toNat =
      min m (2 ^ 32 - 1) % 256 := by
    rw [Escape.toNat_byteChar, htruncate]
    rfl
  refine ⟨_, m, hkept, hcode, Escape.toNat_byteChar_value, fun hgreat => ?_,
    fun log => ⟨_, Escape.run_of_digits hselects hrun hne log⟩⟩
  have hheld : 2 ^ 32 - 1 ≤ m := (Nat.sub_le _ 1).trans (hkept.beyond hgreat)
  rw [hcode, Nat.min_eq_right hheld]
  rfl

/-- The escape of 2^32 + 2^15 + 65 stands for the character of code 255, not for `A`. -/
theorem code_of_numericEscape_beyond :
    Escape.Selects ['x'] .hexadecimal ("100008041".toList ++ []) ∧
      LongestRun Radix.hexadecimal.isDigit "100008041".toList [] ∧ "100008041".toList ≠ [] ∧
      Radix.hexadecimal.numberOf "100008041".toList = 2 ^ 32 + 2 ^ 15 + 65 ∧
      ∃ d : Char, d.toNat = 255 ∧ ∀ log, ∃ q,
        (Pass.escape (Bytes.of "\\x100008041".toList)).run ⟨0, log⟩ = (some (some d), q) := by
  have hselects : Escape.Selects ['x'] .hexadecimal ("100008041".toList ++ []) :=
    .letter (by decide) _
  have hrun : LongestRun Radix.hexadecimal.isDigit "100008041".toList [] :=
    ⟨List.all_eq_true.mp (by decide), fun c hc => nomatch hc⟩
  have hne : "100008041".toList ≠ [] := by decide
  have hnumber : Radix.hexadecimal.numberOf "100008041".toList = 2 ^ 32 + 2 ^ 15 + 65 := by decide
  obtain ⟨d, -, -, -, -, hcode, hpass⟩ := @code_of_numericEscape [] _ _ _ _ hselects hrun hne
  exact ⟨hselects, hrun, hne, hnumber, d, hcode (hnumber ▸ by decide), hpass⟩

/-- The code need not be the low byte of the number: 2^24 + 1 is read as 2^24, and the escape stands
    for NUL. -/
theorem not_forall_code_eq_mod :
    ¬ ∀ (front selector run rest : List Char) (radix : Radix) (log : Log) (d : Char) (q : Progress),
      Escape.Selects selector radix (run ++ rest) → LongestRun radix.isDigit run rest →
        255 < radix.numberOf run →
        (Pass.escape (Bytes.of (front ++ '\\' :: (selector ++ (run ++ rest))))).run
          ⟨width front, log⟩ = (some (some d), q) → d.toNat = radix.numberOf run % 256 := by
  intro hall
  have hselects : Escape.Selects ['d'] .decimal ("16777217".toList ++ []) := .letter (by decide) _
  have hrun : LongestRun Radix.decimal.isDigit "16777217".toList [] :=
    ⟨List.all_eq_true.mp (by decide), fun c hc => nomatch hc⟩
  have hnumber : Radix.decimal.numberOf "16777217".toList = 2 ^ 24 + 1 := by decide
  have hpass : ((Pass.escape (Bytes.of "\\d16777217".toList)).run ⟨0, .empty⟩).1 =
      some (some '\x00') := by decide +kernel
  have hcode := hall [] _ _ _ _ .empty '\x00' _ hselects hrun (hnumber ▸ by decide)
    (Prod.ext hpass rfl)
  rw [hnumber] at hcode
  exact absurd hcode (by decide)

end SourceScan
