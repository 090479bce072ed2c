/-!
# Numeral/Radix.lean -- the four radices

A numeral is written in base 2, 8, 10 or 16. Digits are ASCII; letters count in either case.

* `Radix.digit?`: the value of a character as a digit.
* `Radix.ofEscape?`: the radix that the character behind a backslash stands for.
-/

namespace SourceScan

/-- A radix. -/
inductive Radix where
  | binary
  | octal
  | decimal
  | hexadecimal
deriving DecidableEq, Repr

namespace Radix

/-- The base of a radix. -/
def base : Radix → Nat
  | binary => 2
  | octal => 8
  | decimal => 10
  | hexadecimal => 16

/-- The name of a radix in a sentence. -/
def name : Radix → String
  | binary => "binary"
  | octal => "octal"
  | decimal => "decimal"
  | hexadecimal => "hexadecimal"

/-- The value of an ASCII digit or letter, letters going on from ten in either case. -/
def figure? (c : Char) : Option Nat :=
  if '0' ≤ c ∧ c ≤ '9' then some (c.toNat - '0'.toNat)
  else if 'a' ≤ c ∧ c ≤ 'z' then some (c.toNat - 'a'.toNat + 10)
  else if 'A' ≤ c ∧ c ≤ 'Z' then some (c.toNat - 'A'.toNat + 10)
  else none

/-- The value of a character as a digit of the radix. -/
def digit? (radix : Radix) (c : Char) : Option Nat :=
  (figure? c).filter (· < radix.base)

/-- Whether a character is a digit of the radix. -/
def isDigit (radix : Radix) (c : Char) : Bool :=
  (radix.digit? c).isSome

/-- A digit is less than the base. -/
theorem digit?_lt {radix : Radix} {c : Char} {d : Nat} (h : radix.digit? c = some d) :
    d < radix.base := by
  simpa using (Option.filter_eq_some_iff.mp h).2

/-- Digits are ASCII. -/
theorem toNat_lt_of_isDigit {radix : Radix} {c : Char} (h : radix.isDigit c = true) :
    c.toNat < 128 := by
  obtain ⟨d, hd⟩ := Option.isSome_iff_exists.mp h
  have hfigure := (Option.filter_eq_some_iff.mp hd).1
  simp only [figure?, Char.le_def, UInt32.le_iff_toNat_le] at hfigure
  split at hfigure
  · next h => exact Nat.lt_of_le_of_lt h.2 (by decide)
  · split at hfigure
    · next h => exact Nat.lt_of_le_of_lt h.2 (by decide)
    · split at hfigure
      · next h => exact Nat.lt_of_le_of_lt h.2 (by decide)
      · cases hfigure

/-- What holds of the ten digits holds of a digit. -/
theorem of_isDigit {P : Char → Prop} (h : ∀ n < 10, P (Char.ofNat (48 + n))) {c : Char}
    (hc : c.isDigit = true) : P c := by
  simp only [Char.isDigit, Bool.and_eq_true, decide_eq_true_eq, ge_iff_le,
    UInt32.le_iff_toNat_le] at hc
  have hle : 48 ≤ c.toNat ∧ c.toNat ≤ 57 := hc
  have hcode := h (c.toNat - 48) (by omega)
  rwa [Nat.add_sub_cancel' hle.1, Char.ofNat_toNat] at hcode

theorem isDigit_decimal (c : Char) : decimal.isDigit c = c.isDigit := by
  refine Bool.eq_iff_iff.mpr ⟨fun h => ?_, fun h =>
    of_isDigit (P := fun c => decimal.isDigit c = true) (by decide) h⟩
  obtain ⟨d, hd⟩ := Option.isSome_iff_exists.mp h
  have hlt : d < 10 := digit?_lt hd
  have hfigure := (Option.filter_eq_some_iff.mp hd).1
  unfold figure? at hfigure
  split at hfigure
  · next hrange => exact Bool.and_eq_true_iff.mpr ⟨decide_eq_true hrange.1, decide_eq_true hrange.2⟩
  · split at hfigure
    · injection hfigure
      omega
    · split at hfigure
      · injection hfigure
        omega
      · cases hfigure

/-- The radix a letter behind a backslash selects. -/
def ofEscapeLetter? : Char → Option Radix
  | 'd' => some decimal
  | 'i' => some binary
  | 'o' => some octal
  | 'x' => some hexadecimal
  | _ => none

theorem ofEscapeLetter?_of_le {c : Char} (h : 128 ≤ c.toNat) : ofEscapeLetter? c = none := by
  unfold ofEscapeLetter?
  split <;> first | rfl | exact absurd h (by decide)

theorem toNat_lt_of_ofEscapeLetter? {c : Char} {radix : Radix}
    (h : ofEscapeLetter? c = some radix) : c.toNat < 128 := by
  refine Nat.lt_of_not_le fun hle => ?_
  rw [ofEscapeLetter?_of_le hle] at h
  cases h

end Radix

end SourceScan
