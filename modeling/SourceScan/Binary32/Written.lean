import SourceScan.Binary32.Shortest

/-!
# Binary32/Written.lean -- numbers as text

A number is written with the fewest digits that read back, plainly or with a power of ten. Which
of the two, and what a whole number carries behind it, is the layout's choice:

* `listing`: always plainly, whole numbers bare (`26`, `0.1`, `10000000000000000`); ties go up.
* `document`: plainly from 10^-6 to below 10^13 and with a point in any case (`1.0`), else one digit
  before the point and a signed exponent (`1e+16`, `1.458443e+14`); ties go to the even digit.
-/

namespace SourceScan

/-- How a format writes numbers: the powers of ten from which and below which it writes plainly
    (none: without a bound), what follows a whole number, and which of two equally near decimals is
    chosen. -/
structure Layout where
  plainFrom : Option Int
  plainBelow : Option Int
  afterWhole : List Char
  tie : Decimal.Tie
deriving DecidableEq, Repr

/-- Numbers in listings and sentences. -/
def Layout.listing : Layout := ⟨none, none, [], .up⟩

/-- Numbers in documents. -/
def Layout.document : Layout := ⟨some (-6), some 13, ['.', '0'], .even⟩

/-- Whether a layout writes a number plainly whose first digit stands for `10 ^ top`. -/
def Layout.isPlain (layout : Layout) (top : Int) : Bool :=
  (match layout.plainFrom with
    | none => true
    | some least => least ≤ top) &&
  (match layout.plainBelow with
    | none => true
    | some bound => top < bound)

namespace Decimal

/-- The digits of a decimal. -/
def figures (d : Decimal) : List Char :=
  Nat.toDigits 10 d.digits

/-- The power of ten of the first digit. -/
def top (d : Decimal) : Int :=
  d.exponent + d.figures.length - 1

/-- All digits with the point among, before or behind them. -/
def plain (layout : Layout) (d : Decimal) : List Char :=
  if 0 ≤ d.exponent then
    d.figures ++ List.replicate d.exponent.toNat '0' ++ layout.afterWhole
  else
    let before := (d.top + 1).toNat
    if before = 0 then ['0', '.'] ++ List.replicate (-(d.top + 1)).toNat '0' ++ d.figures
    else d.figures.take before ++ ['.'] ++ d.figures.drop before

/-- The first digit, the others behind a point if there are any, and the signed power of ten. -/
def scientific (d : Decimal) : List Char :=
  let fraction := d.figures.drop 1
  let sign := if d.top < 0 then '-' else '+'
  d.figures.take 1 ++ (if fraction.isEmpty then [] else '.' :: fraction) ++
    ['e', sign] ++ Nat.toDigits 10 d.top.natAbs

/-- A decimal as text. -/
def written (layout : Layout) (d : Decimal) : List Char :=
  if layout.isPlain d.top then d.plain layout else d.scientific

theorem isDigit_of_mem_figures (d : Decimal) {c : Char} (h : c ∈ d.figures) : c.isDigit = true :=
  Nat.isDigit_of_mem_toDigits (by decide) (by decide) h

theorem isDigit_of_mem_zeros {n : Nat} {c : Char} (h : c ∈ List.replicate n '0') :
    c.isDigit = true :=
  List.eq_of_mem_replicate h ▸ rfl

/-- A listing writes a decimal with digits and a point. -/
theorem mem_written_listing {d : Decimal} {c : Char} (h : c ∈ d.written .listing) :
    c.isDigit = true ∨ c = '.' := by
  have hplain : d.written .listing = d.plain .listing := if_pos rfl
  rw [hplain, plain] at h
  split at h
  · rw [show Layout.listing.afterWhole = [] from rfl, List.append_nil] at h
    rcases List.mem_append.mp h with h | h
    · exact .inl (d.isDigit_of_mem_figures h)
    · exact .inl (isDigit_of_mem_zeros h)
  · dsimp only at h
    split at h
    · rcases List.mem_append.mp h with h | h
      · rcases List.mem_append.mp h with h | h
        · exact (by simp : ∀ c ∈ ['0', '.'], c.isDigit = true ∨ c = '.') c h
        · exact .inl (isDigit_of_mem_zeros h)
      · exact .inl (d.isDigit_of_mem_figures h)
    · rcases List.mem_append.mp h with h | h
      · rcases List.mem_append.mp h with h | h
        · exact .inl (d.isDigit_of_mem_figures (List.mem_of_mem_take h))
        · exact .inr (List.mem_singleton.mp h)
      · exact .inl (d.isDigit_of_mem_figures (List.mem_of_mem_drop h))

end Decimal

namespace Binary32

/-- A magnitude as text. -/
def writtenRank (layout : Layout) (rank : Nat) : List Char :=
  if rank = 0 then '0' :: layout.afterWhole else (Decimal.shortest layout.tie rank).written layout

/-- A text behind the sign of a number. -/
def signed (negative : Bool) (text : List Char) : List Char :=
  if negative then '-' :: text else text

/-- A finite number as text; infinities and NaN have none. -/
def written? (layout : Layout) : Binary32 → Option (List Char)
  | finite negative rank => some (signed negative (writtenRank layout rank))
  | _ => none

/-- Any value as a listing shows it. -/
def shown : Binary32 → List Char
  | finite negative rank => signed negative (writtenRank .listing rank)
  | infinite negative => signed negative ['i', 'n', 'f']
  | nan => ['N', 'a', 'N']

/-- A listing shows a value with digits, a sign, a point and the letters of three names. -/
theorem mem_shown {x : Binary32} {c : Char} (h : c ∈ x.shown) :
    c.isDigit = true ∨ c ∈ ['-', '.', 'i', 'n', 'f', 'N', 'a'] := by
  have hsigned : ∀ {negative text}, c ∈ signed negative text → c = '-' ∨ c ∈ text := by
    intro negative text h
    cases negative with
    | false => exact .inr h
    | true => exact List.mem_cons.mp h
  cases x with
  | finite negative rank =>
    rcases hsigned h with rfl | h
    · exact .inr (by decide)
    unfold writtenRank at h
    split at h
    · exact .inl (List.mem_singleton.mp h ▸ rfl)
    · refine (Decimal.mem_written_listing h).imp_right fun hpoint => ?_
      rw [hpoint]
      decide
  | infinite negative =>
    refine .inr ?_
    rcases hsigned h with rfl | h
    · decide
    · exact (by simp : ∀ c ∈ ['i', 'n', 'f'], c ∈ ['-', '.', 'i', 'n', 'f', 'N', 'a']) c h
  | nan =>
    refine .inr ?_
    exact (by simp : ∀ c ∈ ['N', 'a', 'N'], c ∈ ['-', '.', 'i', 'n', 'f', 'N', 'a']) c h

end Binary32

end SourceScan
