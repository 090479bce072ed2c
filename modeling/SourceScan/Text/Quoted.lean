import SourceScan.Text.Unprintable

/-!
# Text/Quoted.lean -- characters and strings in quoted form

A quoted form shows any text on one line, without a control character (`isControl_of_mem_escaped`):

* NUL, tab, newline and carriage return are `\0`, `\t`, `\n`, `\r`; the backslash is `\\`;
* the marks that a form quotes with are written behind a backslash;
* every other unprintable character is its code point, `\u` and lower-case hexadecimal digits
  between braces, without leading zeros;
* all else stands for itself.
-/

namespace SourceScan.Text

/-- A code point between braces behind `\u`. -/
def escapedCode (c : Char) : List Char :=
  ['\\', 'u', '\x7b'] ++ Nat.toDigits 16 c.toNat ++ ['\x7d']

/-- A character as it stands in a quoted form whose quotation marks are `marks`. -/
def escaped (marks : List Char) (c : Char) : List Char :=
  if c = '\x00' then ['\\', '0']
  else if c = '\t' then ['\\', 't']
  else if c = '\n' then ['\\', 'n']
  else if c = '\r' then ['\\', 'r']
  else if c = '\\' then ['\\', '\\']
  else if c ∈ marks then ['\\', c]
  else if isUnprintable c then escapedCode c
  else [c]

/-- The digits of a number are digits of its base. -/
theorem exists_digitChar_of_mem_toDigits {base n : Nat} (hbase : 1 < base) {c : Char}
    (h : c ∈ Nat.toDigits base n) : ∃ d < base, c = Nat.digitChar d := by
  induction n using Nat.strongRecOn with
  | ind n ih =>
    rw [Nat.toDigits_eq_if hbase] at h
    split at h
    case isTrue hlt => exact ⟨n, hlt, List.mem_singleton.mp h⟩
    case isFalse hle =>
      rcases List.mem_append.mp h with h | h
      · exact ih (n / base) (Nat.div_lt_self (by omega) hbase) h
      · exact ⟨n % base, Nat.mod_lt n (by omega), List.mem_singleton.mp h⟩

/-- The code of a character is written in printable characters. -/
theorem isControl_of_mem_escapedCode {c d : Char} (h : d ∈ escapedCode c) :
    isControl d = false := by
  have hframe : ∀ d ∈ ['\\', 'u', '\x7b'] ++ ['\x7d'], isControl d = false := by
    simp [isControl]
  have hfigures : ∀ n < 16, isControl (Nat.digitChar n) = false := by decide
  rcases List.mem_append.mp h with h | hclose
  · rcases List.mem_append.mp h with hopen | hfigure
    · exact hframe d (List.mem_append_left _ hopen)
    · obtain ⟨n, hn, rfl⟩ := exists_digitChar_of_mem_toDigits (by decide) hfigure
      exact hfigures n hn
  · exact hframe d (List.mem_append_right _ hclose)

/-- **No control character is left in a quoted form**, if none is a quotation mark. -/
theorem isControl_of_mem_escaped {marks : List Char} (hmarks : ∀ m ∈ marks, isControl m = false)
    {c d : Char} (h : d ∈ escaped marks c) : isControl d = false := by
  have hnamed : ∀ letter ∈ ['0', 't', 'n', 'r', '\\'], ∀ d ∈ ['\\', letter],
      isControl d = false := by
    simp [isControl]
  unfold escaped at h
  split at h
  · exact hnamed '0' (by decide) d h
  split at h
  · exact hnamed 't' (by decide) d h
  split at h
  · exact hnamed 'n' (by decide) d h
  split at h
  · exact hnamed 'r' (by decide) d h
  split at h
  · exact hnamed '\\' (by decide) d h
  split at h
  · next hmark =>
    rcases List.mem_cons.mp h with rfl | h
    · decide
    · exact List.mem_singleton.mp h ▸ hmarks c hmark
  split at h
  · exact isControl_of_mem_escapedCode h
  · next hshown =>
    -- a character that stands for itself is printable
    rw [List.mem_singleton.mp h]
    exact Bool.eq_false_iff.mpr (mt isUnprintable_of_isControl hshown)

/-- A character between apostrophes. -/
def quotedChar (c : Char) : List Char :=
  ['\''] ++ escaped ['\''] c ++ ['\'']

/-- A string between quotation marks. -/
def quotedString (s : List Char) : List Char :=
  ['"'] ++ s.flatMap (escaped ['"']) ++ ['"']

/-- A character inside a sentence: both quotation marks are written behind a backslash. -/
def shownChar (c : Char) : List Char :=
  escaped ['\'', '"'] c

end SourceScan.Text
