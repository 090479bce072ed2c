import SourceScan.Binary32.Arithmetic
import SourceScan.Stage.Basic
import SourceScan.Text.Width

/-!
# Numeral/Basic.lean -- numerals

A numeral is a list of digits in a radix, of which the last few may stand behind a point.

* `split`: the radix a text announces, and how many characters announce it. A literal announces by
  `0` and a letter (`d`, `b`, `o`, `x`), an escape code by its backslash and a letter (`d`, `i`, `o`,
  `x`); letters count in either case, and without one the radix is decimal.
* `Numeral.parse`: the numeral a text spells, or its first misplaced character and where it stands.
  A literal may hold one point, and apostrophes anywhere.
* `Numeral.value`: the digits read from the left, every step rounded, and the whole divided by the
  power of the base that the point stands for.
-/

namespace SourceScan

open Text

/-- The character that announces a radix, ahead of its letter. -/
def Setting.lead : Setting → Char
  | literal => '0'
  | escapeCode => '\\'

/-- The radix a letter announces behind the lead, in lower case. -/
def Setting.announced? : Setting → Char → Option Radix
  | _, 'd' => some .decimal
  | literal, 'b' => some .binary
  | escapeCode, 'i' => some .binary
  | _, 'o' => some .octal
  | _, 'x' => some .hexadecimal
  | _, _ => none

/-- How many characters a lead takes that no letter follows: the zero of a literal is a digit
    itself, the backslash of an escape is not. -/
def Setting.bareLead : Setting → Nat
  | literal => 0
  | escapeCode => 1

/-- The radix a text announces, and the number of characters ahead of the digits. -/
def Setting.split (setting : Setting) : List Char → Radix × Nat
  | [] => (.decimal, 0)
  | [c] => if c = setting.lead then (.decimal, setting.bareLead) else (.decimal, 0)
  | c :: letter :: _ =>
    if c = setting.lead then
      match setting.announced? letter.toLower with
      | some radix => (radix, 2)
      | none => (.decimal, setting.bareLead)
    else (.decimal, 0)

/-- A numeral: its digits from the left, and how many of them stand behind the point. -/
structure Numeral where
  radix : Radix
  digits : List Nat
  fraction : Nat
deriving DecidableEq, Repr

/-- The first misplaced character of a numeral: what is wrong with it, and its offset. -/
structure Misplaced where
  fault : Fault
  offset : Nat
deriving DecidableEq, Repr

namespace Numeral

/-- Read digits from `offset` on, with or without a point ahead of them: the digits, and how
    many of them stand behind a point. -/
def digitsFrom (setting : Setting) (radix : Radix) (pointed : Bool) (offset : Nat) :
    List Char → Except Misplaced (List Nat × Nat)
  | [] => .ok ([], 0)
  | c :: cs =>
    match radix.digit? c with
    | some d => do
      let (ds, behind) ← digitsFrom setting radix pointed (offset + c.utf8Size) cs
      return (d :: ds, if pointed then behind + 1 else behind)
    | none =>
      if setting = .literal ∧ c = '.' then
        if pointed then .error ⟨.secondPoint radix setting, offset⟩
        else digitsFrom setting radix true (offset + c.utf8Size) cs
      else if setting = .literal ∧ c = '\'' then
        digitsFrom setting radix pointed (offset + c.utf8Size) cs
      else .error ⟨.strayDigit c radix setting, offset⟩

/-- The numeral that a text spells. -/
def parse (setting : Setting) (text : List Char) : Except Misplaced Numeral := do
  let (radix, ahead) := setting.split text
  let (digits, fraction) ← digitsFrom setting radix false ahead (text.drop ahead)
  return ⟨radix, digits, fraction⟩

/-- The numeral that digits of a radix spell, without a point. -/
def ofDigits (radix : Radix) (run : List Char) : Numeral :=
  ⟨radix, run.filterMap radix.digit?, 0⟩

/-- Digits of a radix are read as they are. -/
theorem digitsFrom_of_digits {setting : Setting} {radix : Radix} {run : List Char}
    (h : ∀ c ∈ run, radix.isDigit c = true) (offset : Nat) :
    digitsFrom setting radix false offset run = .ok (run.filterMap radix.digit?, 0) := by
  induction run generalizing offset with
  | nil => rfl
  | cons c cs ih =>
    obtain ⟨d, hd⟩ := Option.isSome_iff_exists.mp (h c List.mem_cons_self)
    rw [digitsFrom, hd, List.filterMap_cons_some hd]
    dsimp only
    rw [ih (fun c hc => h c (List.mem_cons_of_mem _ hc))]
    rfl

/-- An escape code in decimal is its digits. -/
theorem parse_decimal {run : List Char} (hne : run ≠ [])
    (h : ∀ c ∈ run, Radix.decimal.isDigit c = true) :
    parse .escapeCode ('\\' :: run) = .ok (ofDigits .decimal run) := by
  obtain ⟨c, cs, rfl⟩ := List.exists_cons_of_ne_nil hne
  have hc : c.isDigit = true := Radix.isDigit_decimal c ▸ h c List.mem_cons_self
  have hletter := Radix.of_isDigit
    (P := fun c => Setting.escapeCode.announced? c.toLower = none) (by decide) hc
  have hsplit : Setting.escapeCode.split ('\\' :: c :: cs) = (.decimal, 1) := by
    unfold Setting.split
    dsimp only
    rw [hletter]
    rfl
  unfold parse
  rw [hsplit]
  dsimp only
  rw [List.drop_one, List.tail_cons, digitsFrom_of_digits h]
  rfl

theorem parse_selected {c : Char} {radix : Radix} {run : List Char}
    (hradix : Radix.ofEscapeLetter? c = some radix) (h : ∀ c ∈ run, radix.isDigit c = true) :
    parse .escapeCode ('\\' :: c :: run) = .ok (ofDigits radix run) := by
  have hsplit : Setting.escapeCode.split ('\\' :: c :: run) = (radix, 2) := by
    unfold Radix.ofEscapeLetter? at hradix
    split at hradix <;> cases hradix <;> rfl
  unfold parse
  rw [hsplit]
  dsimp only
  rw [show ('\\' :: c :: run).drop 2 = run from rfl, digitsFrom_of_digits h]
  rfl

/-- The digits read from the left: multiply by the base and add, each rounded. -/
def whole (base : Binary32) (digits : List Nat) : Binary32 :=
  digits.foldl (fun v d => (v.mul base).add (Binary32.ofNat d)) Binary32.zero

/-- The value of a numeral. -/
def value (n : Numeral) : Binary32 :=
  let base := Binary32.ofNat n.radix.base
  (whole base n.digits).div (base.power n.fraction)

theorem isNegative_whole {base : Binary32} (hbase : base.isNegative = false) (digits : List Nat) :
    (whole base digits).isNegative = false := by
  have hfold : ∀ v : Binary32, v.isNegative = false →
      (digits.foldl (fun v d => (v.mul base).add (Binary32.ofNat d)) v).isNegative = false := by
    induction digits with
    | nil => exact fun v hv => hv
    | cons d digits ih =>
      exact fun v hv => ih _ (Binary32.isNegative_add (Binary32.isNegative_mul hv hbase)
        (Binary32.isNegative_ofNat d))
  exact hfold _ (Binary32.isNegative_ofRank _ _)

/-- The value of a numeral has no sign. -/
theorem isNegative_value (n : Numeral) : n.value.isNegative = false :=
  Binary32.isNegative_div (isNegative_whole (Binary32.isNegative_ofNat _) _)
    (Binary32.isNegative_power _ (Binary32.isNegative_ofNat _))

/-- Read the numeral that a text spells, as a stage: the text begins at offset `start`, and a
    misplaced character fails it with the whole text as its position. -/
def read (setting : Setting) (start : Nat) (text : List Char) : Stage Binary32 :=
  match parse setting text with
  | .ok n => pure n.value
  | .error m => .fail m.fault (.clamped start (width text) m.offset) (start + width text)

end Numeral

end SourceScan
