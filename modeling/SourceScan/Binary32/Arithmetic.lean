import SourceScan.Binary32.Basic

/-!
# Binary32/Arithmetic.lean -- the operations, each rounded once

Every operation is the exact one on the magnitudes in units, rounded once to nearest, to even on a
tie. What has no value is a NaN: zero times infinity, infinity minus infinity, zero by zero,
infinity by infinity.

* `add`, `mul`, `div`: the three operations.
* `power`: repeated squaring, each product rounded, so it may pass through infinity.
* `exceeds`, `truncate`: comparison with a natural number, and the whole part held to a bound.
* `isNegative`: whether a value has the sign. No operation gives the sign to what comes of values
  without it.
-/

namespace SourceScan.Binary32

/-- The sum. Opposite values give zero without a sign; so do zeros of different sign. -/
def add : Binary32 → Binary32 → Binary32
  | nan, _ => nan
  | _, nan => nan
  | infinite s, infinite t => if s = t then infinite s else nan
  | infinite s, finite _ _ => infinite s
  | finite _ _, infinite t => infinite t
  | finite s a, finite t b =>
    if s = t then round s (units a + units b) 1
    else if units b < units a then round s (units a - units b) 1
    else if units a < units b then round t (units b - units a) 1
    else zero

/-- The product. -/
def mul : Binary32 → Binary32 → Binary32
  | nan, _ => nan
  | _, nan => nan
  | infinite s, infinite t => infinite (s != t)
  | infinite s, finite t b => if b.val = 0 then nan else infinite (s != t)
  | finite s a, infinite t => if a.val = 0 then nan else infinite (s != t)
  | finite s a, finite t b => round (s != t) (units a * units b) unitsInOne

/-- The quotient. -/
def div : Binary32 → Binary32 → Binary32
  | nan, _ => nan
  | _, nan => nan
  | infinite _, infinite _ => nan
  | infinite s, finite t _ => infinite (s != t)
  | finite s _, infinite t => ofRank (s != t) 0
  | finite s a, finite t b =>
    if b.val = 0 then (if a.val = 0 then nan else infinite (s != t))
    else round (s != t) (units a * unitsInOne) (units b)

/-- Multiply `acc` by the `n`-th power of `x`: the binary digits of `n` from the lowest, `x` squared
    between two digits. -/
def powerOnto (acc x : Binary32) (n : Nat) : Binary32 :=
  let acc := if n % 2 = 1 then acc.mul x else acc
  if n / 2 = 0 then acc else powerOnto acc (x.mul x) (n / 2)
termination_by n
decreasing_by omega

/-- The `n`-th power. -/
def power (x : Binary32) (n : Nat) : Binary32 :=
  powerOnto one x n

/-- Whether a value is above the natural number `n`. -/
def exceeds (x : Binary32) (n : Nat) : Bool :=
  match x with
  | finite false rank => n * unitsInOne < units rank
  | infinite false => true
  | _ => false

/-- The whole part, held between zero and `bound`; zero for a NaN. -/
def truncate (x : Binary32) (bound : Nat) : Nat :=
  match x with
  | finite false rank => min (units rank / unitsInOne) bound
  | infinite false => bound
  | _ => 0

/-! ## Signs -/

/-- Whether a value has the sign. A NaN has none. -/
def isNegative : Binary32 → Bool
  | finite negative _ => negative
  | infinite negative => negative
  | nan => false

@[simp] theorem isNegative_finite (negative : Bool) (rank : Fin finiteRanks) :
    (finite negative rank).isNegative = negative := rfl

@[simp] theorem isNegative_infinite (negative : Bool) :
    (infinite negative).isNegative = negative := rfl

@[simp] theorem isNegative_nan : nan.isNegative = false := rfl

@[simp] theorem isNegative_ofRank (negative : Bool) (rank : Nat) :
    (ofRank negative rank).isNegative = negative := by
  unfold ofRank
  split <;> rfl

@[simp] theorem isNegative_round (negative : Bool) (num den : Nat) :
    (round negative num den).isNegative = negative :=
  isNegative_ofRank _ _

theorem isNegative_ofNat (n : Nat) : (ofNat n).isNegative = false :=
  isNegative_round _ _ _

section Unsigned

variable {x y : Binary32} (hx : x.isNegative = false) (hy : y.isNegative = false)
include hx hy

theorem isNegative_ite (p : Prop) [Decidable p] : (if p then x else y).isNegative = false := by
  split <;> assumption

theorem isNegative_add : (x.add y).isNegative = false := by
  cases x <;> cases y <;> simp_all [add]

theorem isNegative_mul : (x.mul y).isNegative = false := by
  cases x <;> cases y <;> simp_all [mul] <;> split <;> simp

theorem isNegative_div : (x.div y).isNegative = false := by
  cases x <;> cases y <;> simp_all [div]
  exact isNegative_ite (isNegative_ite rfl rfl _) (isNegative_round _ _ _) _

end Unsigned

theorem isNegative_powerOnto {acc x : Binary32} (n : Nat) (hacc : acc.isNegative = false)
    (hx : x.isNegative = false) : (powerOnto acc x n).isNegative = false := by
  fun_induction powerOnto acc x n with
  | case1 acc x n next hzero => exact isNegative_ite (isNegative_mul hacc hx) hacc _
  | case2 acc x n next hne ih =>
    exact ih (isNegative_ite (isNegative_mul hacc hx) hacc _) (isNegative_mul hx hx)

theorem isNegative_power {x : Binary32} (n : Nat) (hx : x.isNegative = false) :
    (x.power n).isNegative = false :=
  isNegative_powerOnto n (isNegative_round _ _ _) hx

end SourceScan.Binary32
