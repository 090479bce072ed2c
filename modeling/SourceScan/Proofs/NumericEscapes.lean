import SourceScan.Proofs.Decomposition
import SourceScan.Proofs.Overflow

/-!
# Proofs/NumericEscapes.lean -- escapes that are written as numbers

The radix of a numeric escape is found twice: by the letter behind the backslash, and again from the
text of the escape. The number is compared with 255 as a rounded one. This file shows that neither
does any harm: the two radices are the same, and what is above 255 stays above it however it is
rounded.

* `Escape.Selects`: what stands ahead of the digits, and their radix.
* `Radix.numberOf`: the number that a run of digits spells.
* `atLeast_whole`: digits are read as a power of two at least if they spell as much.
* `exceeds_value_iff`, `Escape.toNat_byteChar_value`: when a warning is due, and the character of a
  small number.
* **`numericEscape_run`**: what an escape comes to that is written as a number.
-/

namespace SourceScan

open Text

/-! ## 1. Values -/

namespace Binary32

/-- Divided by one, a value stays as it is. -/
theorem div_one_of_readAs {n : ℕ} {x : Binary32} (h : ReadAs n x) : x.div one = x := by
  obtain ⟨s, hone, hmagnitude⟩ := ofNat_of_isExact (isExact_of_le (n := 1) (by decide))
  rw [one_eq, hone]
  match x with
  | finite false r =>
    have hne : s.val ≠ 0 := ne_zero_of_magnitude_pos (by rw [hmagnitude, Nat.cast_one]; exact one_pos)
    obtain ⟨rank, hdiv, hround⟩ := div_finite r hne
    rw [hmagnitude, Nat.cast_one, div_one] at hround
    obtain rfl : rank = r.val := hround.unique (roundsTo_magnitude r)
    rw [hdiv, ofRank, dif_pos r.isLt]
  | infinite false => rfl

/-- A value is above a number if its magnitude is. -/
theorem exceeds_finite_iff {n : ℕ} {rank : Fin finiteRanks} :
    (finite false rank).exceeds n = true ↔ n < magnitude rank := by
  have hunits : (finite false rank).exceeds n = true ↔ n * unitsInOne < units rank :=
    decide_eq_true_iff
  rw [hunits, magnitude, lt_div_iff₀ unitsInOne_pos, ← Nat.cast_mul, Nat.cast_lt]

/-- What is at least a power of two is above all numbers below the power. -/
theorem exceeds_of_atLeast {j n : ℕ} {x : Binary32} (h : AtLeast (2 ^ j) x) (hn : n < 2 ^ j) :
    x.exceeds n = true := by
  match x with
  | finite false rank => exact exceeds_finite_iff.mpr (lt_of_lt_of_le (by exact_mod_cast hn) h)
  | infinite false => rfl

/-- Exact numbers are compared as numbers. -/
theorem exceeds_ofNat {m n : ℕ} (h : IsExact n) : (ofNat n).exceeds m = true ↔ m < n := by
  obtain ⟨rank, heq, hmagnitude⟩ := ofNat_of_isExact h
  rw [heq, exceeds_finite_iff, hmagnitude, Nat.cast_lt]

theorem units_of_magnitude {n rank : ℕ} (h : magnitude rank = n) : units rank = n * unitsInOne := by
  rw [magnitude, div_eq_iff unitsInOne_pos.ne'] at h
  exact_mod_cast h

/-- The whole part of a value that is a number is this number. -/
theorem truncate_finite {n : ℕ} {rank : Fin finiteRanks} (bound : ℕ) (h : magnitude rank = n) :
    (finite false rank).truncate bound = min n bound := by
  have hpos : 0 < unitsInOne := Nat.two_pow_pos 149
  show min (units rank / unitsInOne) bound = min n bound
  rw [units_of_magnitude h, Nat.mul_div_cancel n hpos]

/-- A sum is at least what one part of it is. -/
theorem atLeast_add {j d : ℕ} {x : Binary32} (h : AtLeast (2 ^ j) x) (hd : IsExact d) :
    AtLeast (2 ^ j) (x.add (ofNat d)) := by
  obtain ⟨s, heq, hmagnitude⟩ := ofNat_of_isExact hd
  rw [heq]
  match x with
  | finite false r =>
    obtain ⟨rank, hadd, hround⟩ := add_finite r s
    rw [hadd]
    refine atLeast_of_roundsTo hround (le_trans h (le_add_of_nonneg_right ?_))
    rw [hmagnitude]
    exact Nat.cast_nonneg d
  | infinite false => exact trivial

/-- **One more digit does not make less of a value.** -/
theorem atLeast_step {j base d : ℕ} {x : Binary32} (hbase : 0 < base) (hd : IsExact d)
    (h : AtLeast (2 ^ j) x) : AtLeast (2 ^ j) ((x.mul (ofNat base)).add (ofNat d)) :=
  atLeast_add (atLeast_mul (j := 0) h (atLeast_ofNat hbase)) hd

end Binary32

/-! ## 2. Digits -/

namespace Radix

variable {radix : Radix} {run : List Char}

/-- The number that a run of digits spells. -/
def numberOf (radix : Radix) (run : List Char) : ℕ :=
  Numeral.number radix.base (run.filterMap radix.digit?)

theorem lt_base_of_mem {d : ℕ} (h : d ∈ run.filterMap radix.digit?) : d < radix.base := by
  obtain ⟨c, -, hc⟩ := List.mem_filterMap.mp h
  exact digit?_lt hc

theorem isExact_of_lt_base {d : ℕ} (h : d < radix.base) : IsExact d :=
  isExact_of_le (h.le.trans radix.base_le)

/-- **The first digits that spell a number or more decide that all are read as a power of two at
    least**: what they are read as does not get less by the digits behind them. -/
theorem atLeast_whole_of_first {digits : List ℕ} {j n : ℕ} (hpos : 0 < n)
    (hdigits : ∀ d ∈ digits, d < radix.base)
    (hfirst : ∀ front d, (∀ c ∈ front ++ [d], c < radix.base) →
      Numeral.number radix.base front < n → n ≤ Numeral.number radix.base (front ++ [d]) →
        Binary32.AtLeast (2 ^ j) (Numeral.whole (.ofNat radix.base) (front ++ [d])))
    (h : n ≤ Numeral.number radix.base digits) :
    Binary32.AtLeast (2 ^ j) (Numeral.whole (.ofNat radix.base) digits) := by
  induction digits using List.reverseRecOn with
  | nil => exact absurd h (Nat.not_le.mpr hpos)
  | append_singleton digits d ih =>
    rcases Nat.lt_or_ge (Numeral.number radix.base digits) n with hfront | hfront
    · exact hfirst digits d hdigits hfront h
    · have hd : IsExact d := isExact_of_lt_base (hdigits d (by simp))
      rw [Numeral.whole_concat]
      refine Binary32.atLeast_step radix.base_pos hd (ih (fun c hc => hdigits c ?_) hfront)
      exact List.mem_append_left _ hc

/-- **Digits that spell a power of two with 24 zeros at most, or more, are read as no less**: as long
    as they spell less they are exact. -/
theorem atLeast_whole {digits : List ℕ} {j : ℕ} (hj : j ≤ 24) (hdigits : ∀ d ∈ digits, d < radix.base)
    (h : 2 ^ j ≤ Numeral.number radix.base digits) :
    Binary32.AtLeast (2 ^ j) (Numeral.whole (.ofNat radix.base) digits) := by
  refine atLeast_whole_of_first (Nat.two_pow_pos j) hdigits (fun front d hmem hless hmore => ?_) h
  have hle : 2 ^ j ≤ 2 ^ 24 := Nat.pow_le_pow_right (by decide) hj
  have hd : IsExact d := isExact_of_lt_base (hmem d (by simp))
  have hsmall := hless.le.trans hle
  rw [Numeral.number_concat] at hmore
  rw [Numeral.whole_concat, Numeral.whole_eq radix.base_pos radix.base_le hsmall,
    Binary32.mul_ofNat (isExact_of_le hsmall) (isExact_of_le radix.base_le)]
  rcases Nat.lt_or_ge (Numeral.number radix.base front * radix.base) (2 ^ j) with hlt | hge
  · rw [Binary32.add_ofNat (isExact_of_le (hlt.le.trans hle)) hd]
    exact Binary32.atLeast_ofNat hmore
  · exact Binary32.atLeast_add (Binary32.atLeast_ofNat hge) hd

/-- The value of a run of digits is what they are read as. -/
theorem value_ofDigits (radix : Radix) (run : List Char) : (Numeral.ofDigits radix run).value =
    Numeral.whole (.ofNat radix.base) (run.filterMap radix.digit?) := by
  have hpower : (Binary32.ofNat radix.base).power 0 = .one := by
    rw [Binary32.power, Binary32.powerOnto]
    rfl
  rw [Numeral.value, Numeral.ofDigits]
  dsimp only
  rw [hpower]
  exact Binary32.div_one_of_readAs (readAs_whole fun _ => lt_base_of_mem)

/-- A number of 24 binary digits is read as it is. -/
theorem value_of_le (h : radix.numberOf run ≤ 2 ^ 24) :
    (Numeral.ofDigits radix run).value = .ofNat (radix.numberOf run) := by
  rw [value_ofDigits]
  exact Numeral.whole_eq radix.base_pos radix.base_le h

/-- **A warning is due exactly for the numbers above 255**, how many digits there may be. -/
theorem exceeds_value_iff :
    (Numeral.ofDigits radix run).value.exceeds Escape.maxCode = true ↔ 255 < radix.numberOf run := by
  rcases Nat.lt_or_ge (radix.numberOf run) (2 ^ 8) with hlt | hge
  · have hsmall : radix.numberOf run ≤ 2 ^ 24 := hlt.le.trans (by decide)
    rw [value_of_le hsmall]
    exact Binary32.exceeds_ofNat (isExact_of_le hsmall)
  · rw [value_ofDigits]
    refine iff_of_true (Binary32.exceeds_of_atLeast (j := 8) ?_ (by decide)) hge
    exact atLeast_whole (by decide) (fun _ => lt_base_of_mem) hge

end Radix

/-- The code of a character that an escape decodes is one byte. -/
theorem Escape.toNat_byteChar (value : Binary32) :
    (byteChar value).toNat = value.truncate 0xffffffff % 256 := by
  have hlt : value.truncate 0xffffffff % 256 < 256 := Nat.mod_lt _ (by decide)
  have hvalid : (value.truncate 0xffffffff % 256).isValidChar := Or.inl (by omega)
  rw [byteChar, Char.ofNat, dif_pos hvalid]
  rfl

/-- A number of 24 binary digits stands for the character of its low byte. -/
theorem Escape.toNat_byteChar_value {radix : Radix} {run : List Char}
    (h : radix.numberOf run ≤ 2 ^ 24) :
    (byteChar (Numeral.ofDigits radix run).value).toNat = radix.numberOf run % 256 := by
  obtain ⟨rank, heq, hmagnitude⟩ := Binary32.ofNat_of_isExact (isExact_of_le h)
  rw [toNat_byteChar, Radix.value_of_le h, heq, Binary32.truncate_finite _ hmagnitude,
    Nat.min_eq_left (h.trans (by decide))]

/-! ## 3. Escapes -/

/-- What stands ahead of the digits of a numeric escape, their radix, and what stands behind: nothing
    ahead of a decimal digit, or the letter of the radix. -/
inductive Escape.Selects : List Char → Radix → List Char → Prop
  | digit {c : Char} (hc : c.isDigit = true) (behind : List Char) : Selects [] .decimal (c :: behind)
  | letter {c : Char} {radix : Radix} (hc : (c, radix) ∈ Setting.escapeCode.letters)
      (behind : List Char) : Selects [c] radix behind

namespace Escape

variable {front selector behind run rest : List Char} {radix : Radix}

theorem ofEscapeLetter?_of_mem {c : Char} (h : (c, radix) ∈ Setting.escapeCode.letters) :
    Radix.ofEscapeLetter? c = some radix := by
  have hall : ∀ entry ∈ Setting.escapeCode.letters,
      Radix.ofEscapeLetter? entry.1 = some entry.2 := by decide
  exact hall _ h

theorem mem_of_ofEscapeLetter? {c : Char} (h : Radix.ofEscapeLetter? c = some radix) :
    (c, radix) ∈ Setting.escapeCode.letters := by
  unfold Radix.ofEscapeLetter? at h
  split at h <;> cases h <;> decide

theorem Selects.width_eq (h : Selects selector radix behind) : width selector = selector.length := by
  refine width_of_lt fun c hc => ?_
  cases h with
  | digit => cases hc
  | letter hletter =>
    rw [List.mem_singleton.mp hc]
    exact Radix.toNat_lt_of_ofEscapeLetter? (ofEscapeLetter?_of_mem hletter)

/-- What selects a radix makes the escape a numeric one in this radix. -/
theorem read_of_selects (start : ℕ) (lead : Option Char) (h : Selects selector radix behind) :
    read start lead (selector ++ behind) = numeric start lead radix selector behind := by
  cases h with
  | digit hc =>
    obtain ⟨hsemicolon, hnamed⟩ := Radix.of_isDigit
      (P := fun c => c ≠ ';' ∧ named? c = none) (by decide) hc
    rw [List.nil_append, read, if_neg hsemicolon, hnamed]
    dsimp only
    rw [if_pos hc]
  | @letter c radix hc =>
    have hall : ∀ entry ∈ Setting.escapeCode.letters,
        entry.1 ≠ ';' ∧ named? entry.1 = none ∧ ¬ entry.1.isDigit = true := by decide
    obtain ⟨hsemicolon, hnamed, hdigit⟩ := hall _ hc
    rw [List.singleton_append, read, if_neg hsemicolon, hnamed]
    dsimp only
    rw [if_neg hdigit, ofEscapeLetter?_of_mem hc]

/-- The text of such an escape opens with the backslash and the selector, and announces the radix. -/
theorem Selects.opens (h : Selects selector radix (run ++ rest)) (hne : run ≠ []) :
    Setting.escapeCode.Opens ('\\' :: selector) radix run := by
  generalize hbehind : run ++ rest = behind at h
  cases h with
  | @digit c hc =>
    obtain ⟨d, run, rfl⟩ := List.exists_cons_of_ne_nil hne
    obtain rfl : d = c := (List.cons.inj hbehind).1
    refine .lead rfl fun e he radix hletter => ?_
    obtain rfl : d = e := Option.some.inj he
    have hplain := Radix.of_isDigit
      (P := fun c => ∀ entry ∈ Setting.escapeCode.letters, entry.1 ≠ c.toLower) (by decide) hc
    exact hplain _ hletter rfl
  | @letter c radix hc =>
    have hlower : ∀ entry ∈ Setting.escapeCode.letters, entry.1.toLower = entry.1 := by decide
    exact .letter (by rwa [hlower _ hc]) run

/-- It is read as the number of its digits. -/
theorem Selects.parse_eq (h : Selects selector radix (run ++ rest)) (hne : run ≠ [])
    (hrun : ∀ c ∈ run, radix.isDigit c = true) :
    Numeral.parse .escapeCode ('\\' :: (selector ++ run)) = .ok (Numeral.ofDigits radix run) := by
  generalize run ++ rest = behind at h
  cases h with
  | digit => exact Numeral.parse_decimal hne hrun
  | letter hc => exact Numeral.parse_selected (ofEscapeLetter?_of_mem hc) hrun

/-- Where a numeric escape begins, a pass reads it. -/
theorem run_of_selects (h : Selects selector radix behind) (log : Log) :
    (Pass.escape (Bytes.of (front ++ '\\' :: (selector ++ behind)))).run ⟨width front, log⟩ =
      (numeric (width front) (some '\\') radix selector behind).runOn decoded stop log := by
  have hhere : tailAt (front ++ '\\' :: (selector ++ behind)) (width front) =
      ⟨0, '\\' :: (selector ++ behind)⟩ := tailAt_width_append ..
  rw [escape_follows, Bytes.text_of, readAt_of_tailAt hhere, read_of_selects _ _ h]

/-- The text of a numeric escape takes a byte for each character. -/
theorem Selects.width_text (h : Selects selector radix behind)
    (hrun : ∀ c ∈ run, radix.isDigit c = true) :
    width ('\\' :: (selector ++ run)) = selector.length + run.length + 1 := by
  rw [width_cons, width_append, h.width_eq,
    width_of_lt fun c hc => Radix.toNat_lt_of_isDigit (hrun c hc), Nat.add_comm]
  rfl

/-- Where no digit follows, a letter stands. -/
theorem Selects.exists_letter (h : Selects selector radix rest)
    (hrun : LongestRun radix.isDigit [] rest) :
    ∃ c, selector = [c] ∧ (c, radix) ∈ Setting.escapeCode.letters := by
  cases h with
  | digit hc => exact absurd (Radix.isDigit_decimal _ ▸ hc) (Bool.eq_false_iff.mp (hrun.ends _ rfl))
  | @letter c radix hc => exact ⟨c, rfl, hc⟩

/-- A letter that no digit of its radix follows is an error. -/
theorem run_of_noDigits (h : Selects selector radix rest) (hrun : LongestRun radix.isDigit [] rest)
    (log : Log) :
    (Pass.escape (Bytes.of (front ++ '\\' :: (selector ++ rest)))).run ⟨width front, log⟩ =
      (none, ⟨width front + 2, log.append [⟨"expected digits in " ++ radix.name ++ " escape code",
        .error, .clamped (width front) 3 2⟩]⟩) := by
  have htake : rest.takeWhile radix.isDigit = [] := (longestRun_iff.mp hrun).1
  rw [run_of_selects h]
  obtain ⟨c, rfl, -⟩ := h.exists_letter hrun
  unfold numeric
  rw [htake]
  rfl

/-- Digits are read as one character, with a warning if their number is above 255. -/
theorem readAt_of_digits (h : Selects selector radix (run ++ rest))
    (hrun : LongestRun radix.isDigit run rest) (hne : run ≠ []) :
    let value := (Numeral.ofDigits radix run).value
    let length := width ('\\' :: (selector ++ run))
    readAt (front ++ '\\' :: (selector ++ (run ++ rest))) (width front) =
      ⟨if radix.numberOf run ≤ 255 then [] else [⟨value, .clamped (width front) length 0⟩],
        .ok ⟨some (byteChar value), selector.length + run.length, width front + length⟩⟩ := by
  intro value length
  have hhere : tailAt (front ++ '\\' :: (selector ++ (run ++ rest))) (width front) =
      ⟨0, '\\' :: (selector ++ (run ++ rest))⟩ := tailAt_width_append ..
  have hlength : length = selector.length + run.length + 1 := h.width_text hrun.accepted
  have hstop : width front + 1 + (selector.length + run.length) = width front + length := by omega
  rw [readAt_of_tailAt hhere, read_of_selects _ _ h, numeric_eq_of_run (longestRun_iff.mp hrun).1 hne
    (h.parse_eq hne hrun.accepted), ← hlength, hstop]
  by_cases hsmall : radix.numberOf run ≤ 255
  · have hkept := mt Radix.exceeds_value_iff.mp (Nat.not_lt.mpr hsmall)
    rw [if_pos hsmall, if_neg hkept]
  · rw [if_neg hsmall, if_pos (Radix.exceeds_value_iff.mpr (Nat.not_le.mp hsmall))]

/-- A pass decodes them to this character, with the warning in the log. -/
theorem run_of_digits (h : Selects selector radix (run ++ rest))
    (hrun : LongestRun radix.isDigit run rest) (hne : run ≠ []) (log : Log) :
    let value := (Numeral.ofDigits radix run).value
    let length := width ('\\' :: (selector ++ run))
    (Pass.escape (Bytes.of (front ++ '\\' :: (selector ++ (run ++ rest))))).run ⟨width front, log⟩ =
      (some (some (byteChar value)), ⟨width front + length,
        log.append (if radix.numberOf run ≤ 255 then []
          else [Oversize.message ⟨value, .clamped (width front) length 0⟩])⟩) := by
  intro value length
  rw [escape_follows, Bytes.text_of, readAt_of_digits h hrun hne]
  by_cases hsmall : radix.numberOf run ≤ 255
  · rw [if_pos hsmall, if_pos hsmall]
    rfl
  · rw [if_neg hsmall, if_neg hsmall]
    rfl

end Escape

/-- **A backslash with a decimal digit or the letter of a radix behind it is a numeric escape, of the
    longest run of digits.** Without digits it is an error about them. With digits it is none: the
    radix is also the one that the text of the escape announces, the numeral is accepted, and the
    escape ends with the digits. A number up to 255 is the code of the character; for a greater one
    there is a character too, of a code up to 255, and one warning, about the whole escape. -/
theorem numericEscape_run {front selector run rest : List Char} {radix : Radix}
    (hselects : Escape.Selects selector radix (run ++ rest))
    (hrun : LongestRun radix.isDigit run rest) :
    let escape := '\\' :: (selector ++ run)
    let pass := Pass.escape (Bytes.of (front ++ '\\' :: (selector ++ (run ++ rest))))
    let start := width front
    (run = [] → ∀ log, pass.run ⟨start, log⟩ = (none, ⟨start + width escape,
      log.append [⟨"expected digits in " ++ radix.name ++ " escape code", .error,
        .clamped start 3 2⟩]⟩)) ∧
    (run ≠ [] →
      Setting.escapeCode.split escape = (radix, ('\\' :: selector).length) ∧
      Setting.escapeCode.Accepts escape ∧
      ∃ d sentence, d.toNat ≤ 255 ∧ (radix.numberOf run ≤ 255 → d.toNat = radix.numberOf run) ∧
        ∀ log, pass.run ⟨start, log⟩ = (some (some d), ⟨start + width escape,
          log.append (if radix.numberOf run ≤ 255 then []
            else [⟨sentence, .warning, .clamped start (width escape) 0⟩])⟩)) := by
  intro escape pass start
  refine ⟨?_, fun hne => ⟨?_, accepts_of_parse (hselects.parse_eq hne hrun.accepted), ?_⟩⟩
  · rintro rfl log
    have hlength : width escape = 2 := by
      obtain ⟨c, rfl, -⟩ := hselects.exists_letter hrun
      exact hselects.width_text hrun.accepted
    rw [hlength]
    exact Escape.run_of_noDigits hselects hrun log
  · exact Setting.split_of_opens (hselects.opens hne)
  · refine ⟨Escape.byteChar (Numeral.ofDigits radix run).value, _, ?_, fun hsmall => ?_,
      fun log => Escape.run_of_digits hselects hrun hne log⟩
    · rw [Escape.toNat_byteChar]
      exact Nat.le_of_lt_succ (Nat.mod_lt _ (by decide))
    · rw [Escape.toNat_byteChar_value (hsmall.trans (by decide)),
        Nat.mod_eq_of_lt (Nat.lt_succ_of_le hsmall)]

/-- Behind `é`, the escape of 511, which `q` ends. -/
theorem numericEscape_run_oversize :
    Escape.Selects ['x'] .hexadecimal ("1FF".toList ++ ['q']) ∧
      LongestRun Radix.hexadecimal.isDigit "1FF".toList ['q'] ∧
      ∃ d sentence, d.toNat ≤ 255 ∧ ∀ log,
        (Pass.escape (Bytes.of "é\\x1FFq".toList)).run ⟨2, log⟩ = (some (some d),
          ⟨7, log.append [⟨sentence, .warning, .clamped 2 5 0⟩]⟩) := by
  have hselects : Escape.Selects ['x'] .hexadecimal ("1FF".toList ++ ['q']) := .letter (by decide) _
  have hrun : LongestRun Radix.hexadecimal.isDigit "1FF".toList ['q'] :=
    ⟨List.all_eq_true.mp (by decide), fun c hc => Option.some.inj hc ▸ by decide⟩
  have hnumber : ¬ Radix.hexadecimal.numberOf "1FF".toList ≤ 255 := by decide
  obtain ⟨-, hdigits⟩ := @numericEscape_run ['é'] _ _ _ _ hselects hrun
  obtain ⟨-, -, d, sentence, hle, -, hpass⟩ := hdigits (by decide)
  rw [if_neg hnumber] at hpass
  exact ⟨hselects, hrun, d, sentence, hle, hpass⟩

end SourceScan
