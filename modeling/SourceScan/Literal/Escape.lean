import SourceScan.Numeral.Basic

/-!
# Literal/Escape.lean -- escapes

An escape is a backslash and what follows it:

* a character with a meaning of its own (`Escape.named?`), or `;`, which stands for nothing;
* a number, in decimal if it begins with a digit, else in the radix its first letter selects. It
  stands for the character of that code; of a number above 255 the low byte counts, with a warning.

`Escape.read` takes the text behind the backslash. `Escape.readAt` takes an offset into a text,
which need be neither at a backslash nor between characters.
-/

namespace SourceScan

open Text

/-- What an escape comes to: the character it stands for, the number of characters it takes behind
    the backslash, and the offset behind it. -/
structure Escape where
  decoded : Option Char
  count : Nat
  stop : Nat
deriving DecidableEq, Repr

namespace Escape

/-- The character that an escape of one character stands for. -/
def named? : Char → Option Char
  | '\\' => some '\\'
  | '\'' => some '\''
  | '"' => some '"'
  | 'a' => some '\x07'
  | 'b' => some '\x08'
  | 'e' => some '\x1b'
  | 'f' => some '\x0c'
  | 'n' => some '\n'
  | 'r' => some '\r'
  | 't' => some '\t'
  | 'v' => some '\x0b'
  | _ => none

theorem named?_of_le {c : Char} (h : 128 ≤ c.toNat) : named? c = none := by
  unfold named?
  split <;> first | rfl | exact absurd h (by decide)

/-- The greatest code of one byte. -/
def maxCode : Nat := 255

/-- The character of the low byte of a value, its whole part held to 32 bits. -/
def byteChar (value : Binary32) : Char :=
  Char.ofNat (value.truncate 0xffffffff % 256)

/-- The text of an escape from its lead on. An offset inside a character has no lead, and nothing is
    read then. -/
def written (lead : Option Char) (text : List Char) : List Char :=
  match lead with
  | some c => c :: text
  | none => []

/-- A numeric escape in a radix: the digits are the longest run in `behind`, after the letters
    `selector` that chose the radix. The numeral is read from the lead on. -/
def numeric (start : Nat) (lead : Option Char) (radix : Radix) (selector behind : List Char) :
    Stage Escape :=
  let run := behind.takeWhile radix.isDigit
  let count := selector.length + run.length
  let stop := start + 1 + count
  if run.isEmpty then
    .fail (.missingDigits radix) (.clamped start (count + 2) (count + 1)) stop
  else
    let text := written lead (selector ++ run)
    match Numeral.parse .escapeCode text with
    | .error m => .fail m.fault (.clamped start (width text) m.offset) stop
    | .ok n => do
      if n.value.exceeds maxCode then
        Stage.warn ⟨n.value, .clamped start (stop - start) 0⟩
      return ⟨some (byteChar n.value), count, stop⟩

/-- The escape whose first character, `lead`, stands at offset `start`, from the text behind
    that character. -/
def read (start : Nat) (lead : Option Char) : List Char → Stage Escape
  | [] => .fail .unexpectedEnd (.clamped start 2 1) (start + 2)
  | c :: cs =>
    if c = ';' then pure ⟨none, 1, start + 2⟩
    else match named? c with
      | some d => pure ⟨some d, 1, start + 2⟩
      | none =>
        if c.isDigit then numeric start lead .decimal [] (c :: cs)
        else match Radix.ofEscapeLetter? c with
          | some radix => numeric start lead radix [c] cs
          | none =>
            .fail (.unknownEscape c) (.clamped start (1 + c.utf8Size) 1) (start + 1 + c.utf8Size)

/-- What an escape takes behind its backslash, and where it stops. -/
theorem stop_of_numeric {start : Nat} {lead : Option Char} {radix : Radix}
    {selector behind : List Char} {e : Escape} (hselector : width selector = selector.length)
    (h : (numeric start lead radix selector behind).outcome = .ok e) :
    e.count ≤ (selector ++ behind).length ∧
      e.stop = start + 1 + width ((selector ++ behind).take e.count) := by
  have hwidth := width_takeWhile (fun _ => @Radix.toNat_lt_of_isDigit radix _) behind
  have hle : (behind.takeWhile radix.isDigit).length ≤ behind.length :=
    (List.takeWhile_prefix radix.isDigit).length_le
  have hstop : e.count = selector.length + (behind.takeWhile radix.isDigit).length ∧
      e.stop = start + 1 + e.count := by
    unfold numeric at h
    dsimp only at h
    split at h
    · cases h
    · split at h
      · cases h
      · split at h
        · cases h
          exact ⟨rfl, rfl⟩
        · cases h
          exact ⟨rfl, rfl⟩
  rw [hstop.2, hstop.1]
  refine ⟨?_, ?_⟩
  · rw [List.length_append]
    omega
  · rw [List.take_length_add_append, ← List.prefix_iff_eq_take.mp (List.takeWhile_prefix _),
      width_append, hselector, hwidth]

theorem stop_of_read {start : Nat} {lead : Option Char} {cs : List Char} {e : Escape}
    (h : (read start lead cs).outcome = .ok e) :
    e.count ≤ cs.length ∧ e.stop = start + 1 + width (cs.take e.count) := by
  cases cs with
  | nil => cases h
  | cons c cs =>
    unfold read at h
    dsimp only at h
    split at h
    · next hc =>
      subst hc
      cases h
      exact ⟨Nat.le_add_left .., rfl⟩
    split at h
    · next d hnamed =>
      cases h
      have hlt : c.toNat < 128 := by
        refine Nat.lt_of_not_le fun hle => ?_
        rw [named?_of_le hle] at hnamed
        cases hnamed
      refine ⟨Nat.le_add_left .., ?_⟩
      show start + 2 = start + 1 + width [c]
      rw [width_of_lt fun d hd => List.mem_singleton.mp hd ▸ hlt]
      rfl
    split at h
    · exact stop_of_numeric rfl h
    split at h
    · next radix hradix =>
      have hsize : width [c] = 1 := utf8Size_of_lt (Radix.toNat_lt_of_ofEscapeLetter? hradix)
      exact stop_of_numeric hsize h
    · cases h

theorem stop_of_numeric_error {start : Nat} {lead : Option Char} {radix : Radix}
    {selector behind : List Char} {f : Failure}
    (h : (numeric start lead radix selector behind).outcome = .error f) :
    f.stop = start + 1 + (selector.length + (behind.takeWhile radix.isDigit).length) := by
  unfold numeric at h
  dsimp only at h
  split at h
  · cases h
    rfl
  · split at h
    · cases h
      rfl
    · split at h <;> cases h

/-- An escape that is none stops behind its backslash, and at most one byte behind the text. -/
theorem stop_of_read_error {start : Nat} {lead : Option Char} {cs : List Char} {f : Failure}
    (h : (read start lead cs).outcome = .error f) :
    start < f.stop ∧ f.stop ≤ start + 2 + width cs := by
  cases cs with
  | nil =>
    cases h
    exact ⟨Nat.lt_add_of_pos_right (Nat.succ_pos 1), Nat.le_refl _⟩
  | cons c cs =>
    have hpos := c.utf8Size_pos
    have hrun : ∀ (radix : Radix) (ds : List Char),
        (ds.takeWhile radix.isDigit).length ≤ width ds := fun _ ds =>
      Nat.le_trans (List.takeWhile_prefix _).length_le (length_le_width ds)
    unfold read at h
    dsimp only at h
    split at h
    · cases h
    split at h
    · cases h
    split at h
    · have hdigits := hrun .decimal (c :: cs)
      rw [stop_of_numeric_error h, List.length_nil]
      omega
    split at h
    · next radix _ =>
      have hdigits := hrun radix cs
      rw [stop_of_numeric_error h, List.length_singleton, width_cons]
      omega
    · cases h
      rw [width_cons]
      show start < start + 1 + c.utf8Size ∧ start + 1 + c.utf8Size ≤ _
      omega

/-- The escape at an offset of a text. -/
def readAt (source : List Char) (start : Nat) : Stage Escape :=
  read start (charAt? source start) (tailAt source (start + 1)).chars

/-- At a backslash it is read from the text behind it. -/
theorem readAt_of_tailAt {source cs : List Char} {start : Nat}
    (h : tailAt source start = ⟨0, '\\' :: cs⟩) :
    readAt source start = read start (some '\\') cs := by
  have hbehind : tailAt source (start + 1) = ⟨0, cs⟩ := tailAt_add_utf8Size h
  rw [readAt, charAt?_of_tailAt h, hbehind]
  rfl

end Escape

end SourceScan
