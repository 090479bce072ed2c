/-!
# Token/Alphabet.lean -- the characters of the lexemes

The classes that decide where a lexeme begins and how far it goes. **All are ASCII**
(`toNat_lt_of_isSpace` and so on), and **no character begins two kinds of lexeme**
(`isDigit_alone` and so on).
-/

namespace SourceScan.Alphabet

/-! ## 1. The classes -/

/-- Space, tab, newline, carriage return, form feed, vertical tab. -/
def isSpace (c : Char) : Bool :=
  [' ', '\t', '\n', '\r', '\x0c', '\x0b'].contains c

/-- The characters of operators. -/
def isOperator (c : Char) : Bool :=
  ['~', '!', '%', '^', '&', '*', '-', '+', '=', '[', ']', '\\', '|', ':', '<', '>', '/',
    '?'].contains c

/-- The characters that are a token each. -/
def isPunctuation (c : Char) : Bool :=
  ['@', '$', '(', ')', '\x7b', '\x7d', ';', ',', '.'].contains c

/-- The characters an identifier begins with. -/
def startsIdentifier (c : Char) : Bool :=
  c.isAlpha || c == '_'

/-- The characters an identifier goes on with. -/
def continuesIdentifier (c : Char) : Bool :=
  c.isAlphanum || c == '_'

/-- The characters a numeral goes on with, whatever its radix. -/
def continuesNumeral (c : Char) : Bool :=
  c.isAlphanum || c == '_' || c == '.' || c == '\''

/-- The character that begins a comment. -/
def commentMark : Char := '#'

/-! ## 2. All are ASCII -/

theorem toNat_lt_of_contains {cs : List Char} {c : Char}
    (hcs : cs.all (fun d => d.toNat < 128) = true) (h : cs.contains c = true) : c.toNat < 128 :=
  of_decide_eq_true (List.all_eq_true.mp hcs c (List.contains_iff_mem.mp h))

theorem toNat_lt_of_isSpace {c : Char} (h : isSpace c = true) : c.toNat < 128 :=
  toNat_lt_of_contains rfl h

theorem toNat_lt_of_isOperator {c : Char} (h : isOperator c = true) : c.toNat < 128 :=
  toNat_lt_of_contains rfl h

theorem toNat_lt_of_isPunctuation {c : Char} (h : isPunctuation c = true) : c.toNat < 128 :=
  toNat_lt_of_contains rfl h

theorem toNat_lt_of_isDigit {c : Char} (h : c.isDigit = true) : c.toNat < 128 := by
  simp only [Char.isDigit, Bool.and_eq_true, decide_eq_true_eq, UInt32.le_iff_toNat_le] at h
  exact Nat.lt_of_le_of_lt h.2 (by decide)

theorem toNat_lt_of_isAlpha {c : Char} (h : c.isAlpha = true) : c.toNat < 128 := by
  rcases Bool.or_eq_true_iff.mp h with h | h
  · have hle : c.val ≤ 'Z'.val := (of_decide_eq_true h).2
    exact Nat.lt_of_le_of_lt (UInt32.le_iff_toNat_le.mp hle) (by decide)
  · have hle := of_decide_eq_true (Bool.and_eq_true_iff.mp h).2
    exact Nat.lt_of_le_of_lt (UInt32.le_iff_toNat_le.mp hle) (by decide)

theorem toNat_lt_of_startsIdentifier {c : Char} (h : startsIdentifier c = true) :
    c.toNat < 128 := by
  rcases Bool.or_eq_true_iff.mp h with h | h
  · exact toNat_lt_of_isAlpha h
  · rw [eq_of_beq h]
    decide

theorem toNat_lt_of_continuesIdentifier {c : Char} (h : continuesIdentifier c = true) :
    c.toNat < 128 := by
  simp only [continuesIdentifier, Char.isAlphanum, Bool.or_eq_true, beq_iff_eq] at h
  rcases h with (h | h) | rfl
  · exact toNat_lt_of_isAlpha h
  · exact toNat_lt_of_isDigit h
  · decide

theorem toNat_lt_of_continuesNumeral {c : Char} (h : continuesNumeral c = true) :
    c.toNat < 128 := by
  simp only [continuesNumeral, Char.isAlphanum, Bool.or_eq_true, beq_iff_eq] at h
  rcases h with (((h | h) | rfl) | rfl) | rfl
  · exact toNat_lt_of_isAlpha h
  · exact toNat_lt_of_isDigit h
  all_goals decide

/-! ## 3. No character begins two kinds of lexeme -/

/-- What holds beyond ASCII and of the 128 codes holds of every character. -/
theorem forall_of_ascii {P : Char → Prop} (hbeyond : ∀ c : Char, 128 ≤ c.toNat → P c)
    (hcodes : ∀ n < 128, P (Char.ofNat n)) (c : Char) : P c := by
  by_cases hc : c.toNat < 128
  · exact Char.ofNat_toNat c ▸ hcodes c.toNat hc
  · exact hbeyond c (Nat.le_of_not_lt hc)

theorem isDigit_alone : ∀ c : Char, c.isDigit = true →
    ¬ isSpace c = true ∧ c ≠ commentMark ∧ c ≠ '\'' ∧ c ≠ '"' := by
  refine forall_of_ascii (fun c hc h => ?_) (by decide +kernel)
  exact absurd (toNat_lt_of_isDigit h) (Nat.not_lt.mpr hc)

theorem startsIdentifier_alone : ∀ c : Char, startsIdentifier c = true →
    ¬ isSpace c = true ∧ c ≠ commentMark ∧ c ≠ '\'' ∧ c ≠ '"' ∧ ¬ c.isDigit = true := by
  refine forall_of_ascii (fun c hc h => ?_) (by decide +kernel)
  exact absurd (toNat_lt_of_startsIdentifier h) (Nat.not_lt.mpr hc)

theorem isOperator_alone : ∀ c : Char, isOperator c = true →
    ¬ isSpace c = true ∧ c ≠ commentMark ∧ c ≠ '\'' ∧ c ≠ '"' ∧ ¬ c.isDigit = true ∧
      ¬ startsIdentifier c = true := by
  refine forall_of_ascii (fun c hc h => ?_) (by decide +kernel)
  exact absurd (toNat_lt_of_isOperator h) (Nat.not_lt.mpr hc)

theorem isPunctuation_alone : ∀ c : Char, isPunctuation c = true →
    ¬ isSpace c = true ∧ c ≠ commentMark ∧ c ≠ '\'' ∧ c ≠ '"' ∧ ¬ c.isDigit = true ∧
      ¬ startsIdentifier c = true ∧ ¬ isOperator c = true := by
  refine forall_of_ascii (fun c hc h => ?_) (by decide +kernel)
  exact absurd (toNat_lt_of_isPunctuation h) (Nat.not_lt.mpr hc)
end SourceScan.Alphabet
