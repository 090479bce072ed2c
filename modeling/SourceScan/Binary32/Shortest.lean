import SourceScan.Binary32.Basic

/-!
# Binary32/Shortest.lean -- the fewest digits that read back

Between two neighbouring magnitudes lies a midpoint; what lies between a magnitude's two midpoints
reads back as that magnitude, the midpoints themselves included if its rank is even. `shortest`
gives the decimal with the fewest digits in that interval, of several the nearest, of two equally
near ones the one that the caller's rule for ties names:

* a decimal is a whole number of steps of a power of ten (`Decimal`);
* powers are tried from the greatest on, and of one power only the two multiples next to the
  magnitude, since if any multiple lies in the interval, one of these does.

All quantities are natural numbers: magnitudes and midpoints count half units, 2^-150.
-/

namespace SourceScan

/-- The number `digits * 10 ^ exponent`. -/
structure Decimal where
  digits : Nat
  exponent : Int
deriving DecidableEq, Repr

namespace Decimal

/-- The numerator of the power of ten in half units. -/
def stepNum (exponent : Int) : Nat := Nat.pow 10 exponent.toNat * (2 * unitsInOne)

/-- The denominator of the power of ten in half units. -/
def stepDen (exponent : Int) : Nat := Nat.pow 10 (-exponent).toNat

/-- Whether a decimal reads back as the magnitude of a positive rank. -/
def readsAs (d : Decimal) (rank : Nat) : Bool :=
  let low := (units (rank - 1) + units rank) * stepDen d.exponent
  let high := (units rank + units (rank + 1)) * stepDen d.exponent
  let here := d.digits * stepNum d.exponent
  if rank % 2 = 0 then low ≤ here && here ≤ high else low < here && here < high

/-- The rules for a number halfway between two decimals: the greater one, or the one whose last digit
    is even. -/
inductive Tie where
  | up
  | even
deriving DecidableEq, Repr

/-- Whether the lower one of two equally near decimals is chosen. -/
def Tie.choosesLower (tie : Tie) (lower : Decimal) : Bool :=
  match tie with
  | .up => false
  | .even => lower.digits % 2 = 0

/-- Of the two multiples of a power of ten next to a magnitude, the nearer one that reads back. -/
def onGrid? (tie : Tie) (rank : Nat) (exponent : Int) : Option Decimal :=
  let here := 2 * units rank * stepDen exponent
  let below : Decimal := ⟨here / stepNum exponent, exponent⟩
  let above : Decimal := ⟨below.digits + 1, exponent⟩
  let toBelow := here - below.digits * stepNum exponent
  let toAbove := above.digits * stepNum exponent - here
  match below.readsAs rank, above.readsAs rank with
  | true, true =>
    some (if toBelow < toAbove ∨ toBelow = toAbove ∧ tie.choosesLower below then below else above)
  | true, false => some below
  | false, true => some above
  | false, false => none

/-- The powers of ten a decimal may step by, the greatest first: no magnitude reaches 10^39, and
    all are multiples of 10^-149. -/
def exponents : List Int :=
  (List.range 188).map fun i => 38 - Int.ofNat i

/-- The decimal of fewest digits that reads back as the magnitude of a positive rank. -/
def shortest (tie : Tie) (rank : Nat) : Decimal :=
  (exponents.findSome? (onGrid? tie rank)).getD ⟨0, 0⟩

end Decimal

end SourceScan
