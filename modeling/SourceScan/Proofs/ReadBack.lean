import Mathlib.Algebra.Order.Field.Rat
import Mathlib.Data.List.TakeWhile
import Mathlib.Data.Nat.Cast.Order.Field
import Mathlib.Tactic.NormNum
import Mathlib.Tactic.Ring
import SourceScan.Binary32.Written

/-!
# Proofs/ReadBack.lean -- the text of a number is its own

A decimal reads back as a magnitude if its value lies between the midpoints to the magnitude's
neighbours. Magnitudes grow with their ranks, so these intervals meet in their ends at most, and a
value reads back as one magnitude only.

* `Decimal.value`: the number a decimal is; `Decimal.rank_unique`: it reads back as one magnitude.
* `Decimal.readsAs_shortest`: the shortest decimal of a magnitude reads back as it.
* `readDecimal`, `StandsFor`: the number a text is read as, and the texts that stand for a number;
  `Decimal.standsFor_written`: in a document a decimal is written as a text that stands for it.
* **`Binary32.written?_inj`**: two numbers with the same text are the same.
-/

namespace SourceScan

/-! ## 1. Decimals -/

namespace Decimal

/-- The number a decimal is. -/
def value (d : Decimal) : ℚ :=
  d.digits * (10 : ℚ) ^ d.exponent

/-- The power of ten of a decimal as a fraction of natural numbers. -/
theorem value_mul_halves (d : Decimal) : d.value * (2 * unitsInOne : ℕ) =
    (d.digits * stepNum d.exponent : ℕ) / (stepDen d.exponent : ℕ) := by
  have hpower : (10 : ℚ) ^ d.exponent = 10 ^ d.exponent.toNat / 10 ^ (-d.exponent).toNat := by
    rw [← zpow_natCast, ← zpow_natCast, ← zpow_sub₀ (by norm_num)]
    congr 1
    omega
  simp only [value, stepNum, stepDen, hpower, Nat.pow_eq]
  push_cast
  ring

theorem stepDen_pos (exponent : Int) : (0 : ℚ) < (stepDen exponent : ℕ) :=
  Nat.cast_pos.mpr (Nat.pow_pos (by decide))

/-- A decimal reads back as a magnitude if its value lies between the midpoints, in half units. -/
theorem readsAs_iff (d : Decimal) (rank : Nat) :
    d.readsAs rank = true ↔
      if rank % 2 = 0 then
        (units (rank - 1) + units rank : ℕ) ≤ d.value * (2 * unitsInOne : ℕ) ∧
          d.value * (2 * unitsInOne : ℕ) ≤ (units rank + units (rank + 1) : ℕ)
      else
        (units (rank - 1) + units rank : ℕ) < d.value * (2 * unitsInOne : ℕ) ∧
          d.value * (2 * unitsInOne : ℕ) < (units rank + units (rank + 1) : ℕ) := by
  have hpos := stepDen_pos d.exponent
  rw [value_mul_halves, le_div_iff₀ hpos, div_le_iff₀ hpos, lt_div_iff₀ hpos, div_lt_iff₀ hpos]
  norm_cast
  rw [readsAs]
  split <;> rw [Bool.and_eq_true, decide_eq_true_iff, decide_eq_true_iff]

/-- Both rules hold a decimal between the midpoints, themselves included. -/
theorem between_of_readsAs {d : Decimal} {rank : Nat} (h : d.readsAs rank = true) :
    (units (rank - 1) + units rank : ℕ) ≤ d.value * (2 * unitsInOne : ℕ) ∧
      d.value * (2 * unitsInOne : ℕ) ≤ (units rank + units (rank + 1) : ℕ) := by
  rw [readsAs_iff] at h
  split at h
  · exact h
  · exact ⟨h.1.le, h.2.le⟩

/-- A lower magnitude's interval ends where a higher one's begins, or before. They meet only between
    neighbours, of which one is odd and keeps off its ends. -/
theorem not_readsAs_of_lt {d d' : Decimal} {rank rank' : Nat} (hvalue : d.value = d'.value)
    (hlt : rank < rank') (h : d.readsAs rank = true) : d'.readsAs rank' = false := by
  by_contra h'
  rw [Bool.not_eq_false] at h'
  have hhigh := (between_of_readsAs h).2
  have hlow := (between_of_readsAs h').1
  rw [← hvalue] at hlow
  rcases Nat.lt_or_ge (rank + 1) rank' with hfar | hnear
  · have hgap : units rank + units (rank + 1) < units (rank' - 1) + units rank' := by
      have := units_lt hfar
      have := units_lt (show rank < rank' - 1 by omega)
      omega
    exact absurd (Nat.cast_lt.mpr hgap) (not_lt.mpr (hlow.trans hhigh))
  · obtain rfl : rank' = rank + 1 := by omega
    rw [readsAs_iff] at h h'
    rw [← hvalue] at h'
    -- both values are the common end, which the odd one of the two does not take
    rcases Nat.mod_two_eq_zero_or_one rank with heven | hodd
    · rw [if_neg (by omega)] at h'
      exact absurd (h'.1.trans_le hhigh) (lt_irrefl _)
    · rw [if_neg (by omega)] at h
      exact absurd (hlow.trans_lt h.2) (lt_irrefl _)

/-- **A value reads back as one magnitude.** -/
theorem rank_unique {d d' : Decimal} {rank rank' : Nat} (hvalue : d.value = d'.value)
    (h : d.readsAs rank = true) (h' : d'.readsAs rank' = true) : rank = rank' := by
  rcases Nat.lt_trichotomy rank rank' with hlt | heq | hgt
  · exact absurd h' (Bool.eq_false_iff.mp (not_readsAs_of_lt hvalue hlt h))
  · exact heq
  · exact absurd h (Bool.eq_false_iff.mp (not_readsAs_of_lt hvalue.symm hgt h'))

/-- No positive magnitude reads back from zero. -/
theorem value_pos_of_readsAs {d : Decimal} {rank : Nat} (hpos : 0 < rank)
    (h : d.readsAs rank = true) : 0 < d.value := by
  have hlow := (between_of_readsAs h).1
  have hunits : 0 < units (rank - 1) + units rank := Nat.add_pos_right _ (units_pos hpos)
  have hscaled : 0 < d.value * (2 * unitsInOne : ℕ) := (Nat.cast_pos.mpr hunits).trans_le hlow
  exact pos_of_mul_pos_left hscaled (Nat.cast_nonneg _)

/-- A magnitude lies between its midpoints. -/
theorem readsAs_of_value {d : Decimal} {rank : Nat} (hpos : 0 < rank)
    (h : d.value * (2 * unitsInOne : ℕ) = (2 * units rank : ℕ)) : d.readsAs rank = true := by
  have hbelow : units (rank - 1) + units rank < 2 * units rank := by
    have := units_lt (show rank - 1 < rank by omega)
    omega
  have habove : 2 * units rank < units rank + units (rank + 1) := by
    have := units_lt_succ rank
    omega
  rw [readsAs_iff, h]
  norm_cast
  split
  · exact ⟨hbelow.le, habove.le⟩
  · exact ⟨hbelow, habove⟩

/-- What the search finds on a grid reads back. -/
theorem readsAs_of_onGrid? {tie : Tie} {rank : Nat} {exponent : Int} {d : Decimal}
    (h : onGrid? tie rank exponent = some d) : d.readsAs rank = true := by
  simp only [onGrid?] at h
  split at h
  · split at h <;> cases h <;> assumption
  · cases h; assumption
  · cases h; assumption
  · cases h

/-- The search finds something on a grid if the lower one of its two decimals reads back. -/
theorem onGrid?_ne_none {tie : Tie} {rank : Nat} {exponent : Int}
    (h : (⟨2 * units rank * stepDen exponent / stepNum exponent, exponent⟩ : Decimal).readsAs rank =
      true) : onGrid? tie rank exponent ≠ none := by
  simp only [onGrid?, h]
  split <;> simp_all

/-- All magnitudes stand on the grid of 10^-149. -/
theorem onGrid?_finest (tie : Tie) {rank : Nat} (hpos : 0 < rank) :
    onGrid? tie rank (-149) ≠ none := by
  refine onGrid?_ne_none (readsAs_of_value hpos ?_)
  have hdvd : stepNum (-149) ∣ 2 * units rank * stepDen (-149) := by
    -- 10^149 units of 2^-149 are 5^149
    refine ⟨units rank * 5 ^ 149, ?_⟩
    have hten : stepDen (-149) = 5 ^ 149 * unitsInOne := by decide +kernel
    have htwo : stepNum (-149) = 2 * unitsInOne := by decide +kernel
    rw [hten, htwo]
    ring
  rw [value_mul_halves, Nat.div_mul_cancel hdvd, Nat.cast_mul,
    mul_div_cancel_right₀ _ (stepDen_pos _).ne']

/-- **The shortest decimal of a magnitude reads back as it.** -/
theorem readsAs_shortest (tie : Tie) {rank : Nat} (hpos : 0 < rank) :
    (shortest tie rank).readsAs rank = true := by
  have hmem : (-149 : Int) ∈ exponents := by decide
  cases hfind : exponents.findSome? (onGrid? tie rank) with
  | none => exact absurd (List.findSome?_eq_none_iff.mp hfind _ hmem) (onGrid?_finest tie hpos)
  | some d =>
    obtain ⟨exponent, -, hd⟩ := List.exists_of_findSome?_eq_some hfind
    rw [shortest, hfind]
    exact readsAs_of_onGrid? hd

end Decimal

/-! ## 2. Texts -/

/-- The parts of a text ahead of and behind the first `mark`; without one, the text and nothing. -/
def around (mark : Char) (text : List Char) : List Char × List Char :=
  (text.takeWhile (· ≠ mark), (text.dropWhile (· ≠ mark)).drop 1)

theorem around_append {mark : Char} {ahead : List Char} (h : mark ∉ ahead) (behind : List Char) :
    around mark (ahead ++ mark :: behind) = (ahead, behind) := by
  have hall : ∀ c ∈ ahead, decide (c ≠ mark) = true := fun c hc =>
    decide_eq_true fun heq => h (heq ▸ hc)
  rw [around, List.takeWhile_append_of_pos hall, List.dropWhile_append_of_pos hall,
    List.takeWhile_cons_of_neg (by simp), List.dropWhile_cons_of_neg (by simp), List.append_nil]
  rfl

theorem around_of_notMem {mark : Char} {text : List Char} (h : mark ∉ text) :
    around mark text = (text, []) := by
  have hall : ∀ c ∈ text, decide (c ≠ mark) = true := fun c hc =>
    decide_eq_true fun heq => h (heq ▸ hc)
  rw [around, List.takeWhile_eq_self_iff.mpr hall, List.dropWhile_eq_nil_iff.mpr hall]
  rfl

/-- Pieces that can be told from the front of a text can all be told from it, up to a mark that none
    of them begins with. -/
theorem flatMap_inj_of_mark {α : Type} {piece : α → List Char} {mark : Char}
    (hinj : ∀ {a b rest rest'}, piece a ++ rest = piece b ++ rest' → a = b ∧ rest = rest')
    (hmark : ∀ a rest rest', piece a ++ rest ≠ mark :: rest') {as bs : List α}
    {rest rest' : List Char}
    (h : as.flatMap piece ++ mark :: rest = bs.flatMap piece ++ mark :: rest') :
    as = bs ∧ rest = rest' := by
  induction as generalizing bs with
  | nil =>
    cases bs with
    | nil => exact ⟨rfl, (List.cons.inj h).2⟩
    | cons b bs =>
      rw [List.flatMap_cons, List.append_assoc] at h
      exact absurd h.symm (hmark b _ _)
  | cons a as ih =>
    rw [List.flatMap_cons, List.append_assoc] at h
    cases bs with
    | nil => exact absurd h (hmark a _ _)
    | cons b bs =>
      rw [List.flatMap_cons, List.append_assoc] at h
      obtain ⟨rfl, htail⟩ := hinj h
      obtain ⟨rfl, hrest⟩ := ih htail
      exact ⟨rfl, hrest⟩

/-- A whole number is told by its digits. -/
theorem eq_of_toDigits_eq {n n' : ℕ} (h : Nat.toDigits 10 n = Nat.toDigits 10 n') : n = n' := by
  rw [← Nat.ofDigitChars_ten_toDigits (n := n), h, Nat.ofDigitChars_ten_toDigits]

/-- The number that digits are, with a point among them or not. -/
def readPlain (text : List Char) : ℚ :=
  let (whole, fraction) := around '.' text
  Nat.ofDigitChars 10 (whole ++ fraction) 0 / 10 ^ fraction.length

/-- The number that signed digits are; no digits are zero. -/
def readPower : List Char → ℤ
  | '-' :: figures => -Nat.ofDigitChars 10 figures 0
  | _ :: figures => Nat.ofDigitChars 10 figures 0
  | [] => 0

/-- The number that a text is read as: digits, and a power of ten behind an `e` or none. -/
def readDecimal (text : List Char) : ℚ :=
  let (digits, power) := around 'e' text
  readPlain digits * 10 ^ readPower power

theorem readPlain_of_notMem {text : List Char} (h : '.' ∉ text) :
    readPlain text = Nat.ofDigitChars 10 text 0 := by
  rw [readPlain, around_of_notMem h]
  dsimp only
  rw [List.append_nil, List.length_nil, pow_zero, div_one]

theorem readPlain_point {whole : List Char} (h : '.' ∉ whole) (fraction : List Char) :
    readPlain (whole ++ '.' :: fraction) =
      Nat.ofDigitChars 10 (whole ++ fraction) 0 / 10 ^ fraction.length := by
  rw [readPlain, around_append h]

theorem readDecimal_of_notMem {text : List Char} (h : 'e' ∉ text) :
    readDecimal text = readPlain text := by
  rw [readDecimal, around_of_notMem h]
  dsimp only
  rw [readPower, zpow_zero, mul_one]

theorem readDecimal_power {digits : List Char} (h : 'e' ∉ digits) (power : List Char) :
    readDecimal (digits ++ 'e' :: power) = readPlain digits * 10 ^ readPower power := by
  rw [readDecimal, around_append h]

/-- A text that stands for a number without a sign: it begins with a digit, has a point or a power
    of ten, and is read as the number. -/
structure StandsFor (text : List Char) (x : ℚ) : Prop where
  begins : ∃ c cs, text = c :: cs ∧ c.isDigit = true
  chars : ∀ c ∈ text, c.isDigit = true ∨ c ∈ ['.', 'e', '+', '-']
  marked : '.' ∈ text ∨ 'e' ∈ text
  read : readDecimal text = x

/-- Digits hold no mark. -/
theorem notMem_of_digits {c : Char} {figures : List Char} (h : ∀ d ∈ figures, d.isDigit = true)
    (hc : c.isDigit = false) : c ∉ figures :=
  fun hmem => Bool.false_ne_true (hc.symm.trans (h c hmem))

/-- Digits around a point stand for a number. -/
theorem standsFor_point {whole fraction : List Char} {n k : ℕ} (hne : whole ≠ [])
    (hwhole : ∀ c ∈ whole, c.isDigit = true) (hfraction : ∀ c ∈ fraction, c.isDigit = true)
    (hdigits : Nat.ofDigitChars 10 (whole ++ fraction) 0 = n) (hlength : fraction.length = k) :
    StandsFor (whole ++ '.' :: fraction) (n / 10 ^ k) where
  begins := by
    obtain ⟨c, cs, rfl⟩ := List.exists_cons_of_ne_nil hne
    exact ⟨c, cs ++ '.' :: fraction, rfl, hwhole c List.mem_cons_self⟩
  chars c hc := by
    rcases List.mem_append.mp hc with hc | hc
    · exact .inl (hwhole c hc)
    · rcases List.mem_cons.mp hc with rfl | hc
      · exact .inr (by decide)
      · exact .inl (hfraction c hc)
  marked := .inl (List.mem_append_right _ List.mem_cons_self)
  read := by
    have he : 'e' ∉ whole ++ '.' :: fraction := by
      rw [List.mem_append, List.mem_cons, not_or, not_or]
      exact ⟨notMem_of_digits hwhole rfl, by decide, notMem_of_digits hfraction rfl⟩
    rw [readDecimal_of_notMem he, readPlain_point (notMem_of_digits hwhole rfl), hdigits, hlength]

/-- So do digits, around a point or without one, ahead of a power of ten. -/
theorem standsFor_power {first sign : Char} {fraction power : List Char} {n k : ℕ} {t : ℤ}
    (hfirst : first.isDigit = true) (hfraction : ∀ c ∈ fraction, c.isDigit = true)
    (hdigits : Nat.ofDigitChars 10 (first :: fraction) 0 = n) (hlength : fraction.length = k)
    (hsign : sign ∈ ['+', '-']) (hpower : ∀ c ∈ power, c.isDigit = true)
    (ht : readPower (sign :: power) = t) :
    StandsFor
      ([first] ++ (if fraction.isEmpty then [] else '.' :: fraction) ++ ['e', sign] ++ power)
      (n / 10 ^ k * 10 ^ t) where
  begins := ⟨first, _, rfl, hfirst⟩
  chars c hc := by
    rcases List.mem_append.mp hc with hc | hc
    · rcases List.mem_append.mp hc with hc | hc
      · rcases List.mem_cons.mp hc with rfl | hc
        · exact .inl hfirst
        · split at hc
          · cases hc
          · rcases List.mem_cons.mp hc with rfl | hc
            · exact .inr (by decide)
            · exact .inl (hfraction c hc)
      · rcases List.mem_cons.mp hc with rfl | hc
        · exact .inr (by decide)
        · exact .inr (List.mem_of_mem_drop (i := 2) (List.mem_singleton.mp hc ▸ hsign))
    · exact .inl (hpower c hc)
  marked := .inr (List.mem_append_left _ (List.mem_append_right _ List.mem_cons_self))
  read := by
    have hone : ∀ c ∈ [first], c.isDigit = true := fun c hc => List.mem_singleton.mp hc ▸ hfirst
    have he : 'e' ∉ [first] ++ (if fraction.isEmpty then [] else '.' :: fraction) := by
      rw [List.mem_append, not_or]
      refine ⟨notMem_of_digits hone rfl, ?_⟩
      split
      · exact List.not_mem_nil
      · rw [List.mem_cons, not_or]
        exact ⟨by decide, notMem_of_digits hfraction rfl⟩
    rw [List.append_assoc, show ['e', sign] ++ power = 'e' :: sign :: power from rfl,
      readDecimal_power he, ht, ← hdigits, ← hlength]
    congr 1
    split
    next hempty =>
      rw [List.isEmpty_iff.mp hempty, List.append_nil,
        readPlain_of_notMem (notMem_of_digits hone rfl), List.length_nil, pow_zero, div_one]
    next => rw [readPlain_point (notMem_of_digits hone rfl), List.singleton_append]

namespace Decimal

variable (d : Decimal)

theorem ofDigitChars_figures : Nat.ofDigitChars 10 d.figures 0 = d.digits :=
  Nat.ofDigitChars_ten_toDigits

theorem length_figures_pos : 0 < d.figures.length :=
  Nat.length_toDigits_pos

/-- A plain text stands for the decimal's value, wherever the point is. -/
theorem standsFor_plain : StandsFor (d.plain .document) d.value := by
  have hlength := d.length_figures_pos
  have hfigures : ∀ c ∈ d.figures, c.isDigit = true := fun _ => d.isDigit_of_mem_figures
  have hzeros : ∀ n, ∀ c ∈ List.replicate n '0', c.isDigit = true := fun _ _ => isDigit_of_mem_zeros
  rw [plain]
  split
  next hwhole =>
    obtain ⟨n, hn⟩ := Int.eq_ofNat_of_zero_le hwhole
    have hvalue : d.value = (10 * (10 ^ n * d.digits) : ℕ) / 10 ^ 1 := by
      rw [value, hn, zpow_natCast]
      push_cast
      ring
    rw [hvalue]
    refine standsFor_point (List.append_ne_nil_of_left_ne_nil (List.ne_nil_of_length_pos hlength) _)
      (List.forall_mem_append.mpr ⟨hfigures, hzeros _⟩) (hzeros 1) ?_ rfl
    rw [Nat.ofDigitChars_append, Nat.ofDigitChars_append, ofDigitChars_figures,
      Nat.ofDigitChars_replicate_zero, hn]
    rfl
  next hfraction =>
    obtain ⟨n, hn⟩ : ∃ n : ℕ, d.exponent = -n := ⟨d.exponent.natAbs, by omega⟩
    have hvalue : d.value = d.digits / 10 ^ n := by
      rw [value, hn, zpow_neg, zpow_natCast, div_eq_mul_inv]
    have htop : d.top + 1 = d.figures.length - n := by rw [top, hn]; omega
    rw [hvalue, htop]
    dsimp only
    split
    next hbefore =>
      rw [List.append_assoc]
      change StandsFor (['0'] ++ '.' :: (List.replicate _ '0' ++ d.figures)) _
      refine standsFor_point (by decide) (hzeros 1)
        (List.forall_mem_append.mpr ⟨hzeros _, hfigures⟩) ?_ ?_
      · rw [List.singleton_append, Nat.ofDigitChars_cons, Nat.ofDigitChars_append,
          Nat.ofDigitChars_replicate_zero]
        exact d.ofDigitChars_figures
      · rw [List.length_append, List.length_replicate]
        omega
    next hbefore =>
      rw [List.append_assoc, List.singleton_append]
      refine standsFor_point (List.ne_nil_of_length_pos ?_)
        (fun c hc => hfigures c (List.mem_of_mem_take hc))
        (fun c hc => hfigures c (List.mem_of_mem_drop hc)) ?_ ?_
      · rw [List.length_take]
        omega
      · rw [List.take_append_drop, ofDigitChars_figures]
      · rw [List.length_drop]
        omega

/-- The signed digits of an integer are read as it. -/
theorem readPower_written (t : ℤ) :
    readPower ((if t < 0 then '-' else '+') :: Nat.toDigits 10 t.natAbs) = t := by
  split
  next h =>
    rw [readPower, Nat.ofDigitChars_ten_toDigits]
    omega
  next h =>
    rw [readPower, Nat.ofDigitChars_ten_toDigits]
    · omega
    · decide

/-- So does a text with a power of ten. -/
theorem standsFor_scientific : StandsFor d.scientific d.value := by
  obtain ⟨first, fraction, hsplit⟩ := List.exists_cons_of_length_pos d.length_figures_pos
  have hfigures : ∀ c ∈ first :: fraction, c.isDigit = true :=
    fun _ h => d.isDigit_of_mem_figures (hsplit ▸ h)
  have hvalue : d.value = d.digits / 10 ^ fraction.length * 10 ^ d.top := by
    have htop : d.exponent = d.top - fraction.length := by
      rw [top, hsplit, List.length_cons]
      omega
    rw [value, htop, zpow_sub₀ (by norm_num), zpow_natCast]
    ring
  rw [scientific, hsplit, hvalue]
  refine standsFor_power (hfigures _ List.mem_cons_self)
    (fun c hc => hfigures c (List.mem_cons_of_mem _ hc)) (hsplit ▸ d.ofDigitChars_figures) rfl ?_
    (fun c => Nat.isDigit_of_mem_toDigits (by decide) (by decide)) ?_
  · split <;> decide
  · exact readPower_written d.top

/-- **What a decimal is written as in a document stands for its value.** -/
theorem standsFor_written : StandsFor (d.written .document) d.value := by
  rw [written]
  split
  · exact d.standsFor_plain
  · exact d.standsFor_scientific

end Decimal

/-! ## 3. Numbers -/

namespace Binary32

/-- What a magnitude is written as stands for zero, or for a decimal that reads back as it. -/
theorem standsFor_writtenRank (rank : Nat) :
    rank = 0 ∧ StandsFor (writtenRank .document rank) 0 ∨
      0 < rank ∧ ∃ d : Decimal, StandsFor (writtenRank .document rank) d.value ∧
        d.readsAs rank = true := by
  rw [writtenRank]
  split
  next hzero =>
    refine .inl ⟨hzero, ?_⟩
    have hpoint : StandsFor (['0'] ++ '.' :: ['0']) ((0 : ℕ) / 10 ^ 1) :=
      standsFor_point (by decide) (List.forall_mem_singleton.mpr rfl)
        (List.forall_mem_singleton.mpr rfl) rfl rfl
    rwa [Nat.cast_zero, zero_div] at hpoint
  next hpos =>
    have hpos := Nat.pos_of_ne_zero hpos
    exact .inr ⟨hpos, _, Decimal.standsFor_written _, Decimal.readsAs_shortest _ hpos⟩

/-- Two magnitudes with the same text are the same. -/
theorem writtenRank_inj {rank rank' : Nat}
    (h : writtenRank .document rank = writtenRank .document rank') : rank = rank' := by
  rcases standsFor_writtenRank rank with ⟨rfl, hzero⟩ | ⟨hpos, d, hd, hreads⟩ <;>
    rcases standsFor_writtenRank rank' with ⟨rfl, hzero'⟩ | ⟨hpos', d', hd', hreads'⟩
  · rfl
  · have hvalue : d'.value = 0 := by rw [← hd'.read, ← h, hzero.read]
    exact absurd hvalue (Decimal.value_pos_of_readsAs hpos' hreads').ne'
  · have hvalue : d.value = 0 := by rw [← hd.read, h, hzero'.read]
    exact absurd hvalue (Decimal.value_pos_of_readsAs hpos hreads).ne'
  · have hvalue : d.value = d'.value := by rw [← hd.read, h, hd'.read]
    exact Decimal.rank_unique hvalue hreads hreads'

/-- A magnitude's text begins with a digit. -/
theorem writtenRank_begins (rank : Nat) :
    ∃ c cs, writtenRank .document rank = c :: cs ∧ c.isDigit = true := by
  rcases standsFor_writtenRank rank with ⟨-, h⟩ | ⟨-, d, h, -⟩ <;> exact h.begins

/-- Only finite numbers have a text. -/
theorem finite_of_written? {layout : Layout} {x : Binary32} {text : List Char}
    (h : x.written? layout = some text) :
    ∃ negative rank, x = .finite negative rank ∧
      text = signed negative (writtenRank layout rank) := by
  cases x with
  | finite negative rank => exact ⟨negative, rank, rfl, (Option.some.inj h).symm⟩
  | infinite _ => cases h
  | nan => cases h

/-- A number's text begins with a digit or with the sign, and is not all digits. -/
theorem written?_document {x : Binary32} {text : List Char} (h : x.written? .document = some text) :
    (∃ c cs, text = c :: cs ∧ (c.isDigit = true ∨ c = '-')) ∧
      (∀ c ∈ text, c.isDigit = true ∨ c ∈ ['.', 'e', '+', '-']) ∧ ('.' ∈ text ∨ 'e' ∈ text) := by
  obtain ⟨negative, rank, rfl, rfl⟩ := finite_of_written? h
  obtain ⟨y, hy⟩ : ∃ y, StandsFor (writtenRank .document rank) y := by
    rcases standsFor_writtenRank rank with ⟨-, h⟩ | ⟨-, d, h, -⟩ <;> exact ⟨_, h⟩
  cases negative with
  | false =>
    obtain ⟨c, cs, hc, hdigit⟩ := hy.begins
    exact ⟨⟨c, cs, hc, .inl hdigit⟩, hy.chars, hy.marked⟩
  | true =>
    refine ⟨⟨'-', _, rfl, .inr rfl⟩, fun c hc => ?_, ?_⟩
    · rcases List.mem_cons.mp hc with rfl | hc
      · exact .inr (by decide)
      · exact hy.chars c hc
    · exact hy.marked.imp (List.mem_cons_of_mem _) (List.mem_cons_of_mem _)

/-- **Two numbers with the same text are the same.** -/
theorem written?_inj {x y : Binary32} {text : List Char} (hx : x.written? .document = some text)
    (hy : y.written? .document = some text) : x = y := by
  obtain ⟨s, a, rfl, htext⟩ := finite_of_written? hx
  obtain ⟨t, b, rfl, h⟩ := finite_of_written? hy
  rw [htext] at h
  -- a sign is no digit, so both texts have one or neither
  have hne : ∀ {rank rank' : Nat},
      '-' :: writtenRank .document rank ≠ writtenRank .document rank' := by
    intro rank rank' heq
    obtain ⟨c, cs, hc, hdigit⟩ := writtenRank_begins rank'
    rw [hc] at heq
    exact absurd ((List.cons.inj heq).1 ▸ hdigit) (by decide)
  cases s <;> cases t
  · rw [Fin.ext (writtenRank_inj h)]
  · exact absurd h.symm hne
  · exact absurd h hne
  · rw [Fin.ext (writtenRank_inj (List.cons.inj h).2)]

end Binary32

end SourceScan
