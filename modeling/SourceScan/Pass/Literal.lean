import SourceScan.Literal.Basic
import SourceScan.Pass.Basic
import SourceScan.Text.Bytes

/-!
# Pass/Literal.lean -- numerals, escapes and literals in a pass

The parts of a pass that go over a numeral, an escape and a literal. Each begins where the pass
stands, which may be any offset, looks at bytes, and goes on to the offset behind what it has read.

* `Pass.numeral`: the value of a numeral that is cut out already.
* `Pass.escape`: the escape whose backslash is taken to stand at the offset.
* `Pass.literal`: the literal whose opening mark is taken to stand at the offset.
-/

namespace SourceScan

open Text

namespace Pass

/-- The value of the numeral that a text spells; the text begins at offset `start`. -/
def numeral (setting : Setting) (start : Nat) (text : List Char) : Pass Binary32 :=
  match Numeral.parse setting text with
  | .ok n => pure n.value
  | .error m => fatal m.fault (.clamped start (width text) m.offset)

/-- A numeric escape that begins at `start`, its digits at `first`. -/
def numericEscape (b : Bytes) (start : Nat) (radix : Radix) (first : Nat) :
    Pass (Option Char) := do
  let stop := b.runEnd radix.isDigit first
  moveTo stop
  if stop = first then
    fatal (.missingDigits radix) (.clamped start (stop - start + 1) (stop - start))
  else
    let value ← numeral .escapeCode start (b.slice start stop)
    if value.exceeds Escape.maxCode then
      warn ⟨value, .clamped start (stop - start) 0⟩
    return some (Escape.byteChar value)

/-- No escape begins at `start`: the text ends behind the backslash, or something stands there that
    has no meaning. -/
def unknownEscape (b : Bytes) (start : Nat) : Pass (Option Char) :=
  if b.size ≤ start + 1 then
    fatal .unexpectedEnd (.clamped start 2 1)
  else do
    let c := b.charAt (start + 1)
    moveTo (start + 1 + c.utf8Size)
    fatal (.unknownEscape c) (.clamped start (1 + c.utf8Size) 1)

/-- The escape that begins at `start`, of which `follow` is the byte behind the backslash. -/
def escapeOf (b : Bytes) (start : Nat) (follow : Char) : Pass (Option Char) :=
  if follow = ';' then pure none
  else match Escape.named? follow with
    | some d => pure (some d)
    | none =>
      if follow.isDigit then numericEscape b start .decimal (start + 1)
      else match Radix.ofEscapeLetter? follow with
        | some radix => numericEscape b start radix (start + 2)
        | none => unknownEscape b start

/-- The character that the escape at the offset stands for, if it stands for one. -/
def escape (b : Bytes) : Pass (Option Char) := do
  let start ← offset
  moveTo (start + 2)
  escapeOf b start (b.peek (start + 1))

/-- A numeral leaves the pass where it is. -/
theorem offset_of_numeral {setting : Setting} {start : Nat} {text : List Char} {p q : Progress}
    {value : Binary32} (h : (numeral setting start text).run p = (some value, q)) :
    q.offset = p.offset := by
  unfold numeral at h
  split at h
  · cases h
    rfl
  · cases h

/-- A numeric escape that is one ends behind its first digit. -/
theorem lt_of_numericEscape {b : Bytes} {start first : Nat} {radix : Radix} {p q : Progress}
    {d : Option Char} (h : (numericEscape b start radix first).run p = (some d, q)) :
    first < q.offset := by
  have hle := b.le_runEnd radix.isDigit first
  unfold numericEscape at h
  obtain ⟨_, r, hmove, h⟩ := run_bind_eq_some h
  cases hmove
  split at h
  · cases h
  · next hne =>
    obtain ⟨value, r, hvalue, h⟩ := run_bind_eq_some h
    have hr : r.offset = b.runEnd radix.isDigit first := offset_of_numeral hvalue
    have hq : q.offset = r.offset := by
      split at h <;> cases h <;> rfl
    omega

/-- An escape is two bytes long at least. -/
theorem lt_of_escape {b : Bytes} {p q : Progress} {d : Option Char}
    (h : (escape b).run p = (some d, q)) : p.offset + 1 < q.offset := by
  obtain ⟨start, r, hstart, h⟩ := run_bind_eq_some h
  cases hstart
  obtain ⟨_, r, hmove, h⟩ := run_bind_eq_some h
  cases hmove
  unfold escapeOf at h
  split at h
  · cases h
    exact Nat.lt_succ_self _
  · split at h
    · cases h
      exact Nat.lt_succ_self _
    · split at h
      · have := lt_of_numericEscape h
        omega
      · split at h
        · have := lt_of_numericEscape h
          omega
        · unfold unknownEscape at h
          split at h <;> cases h

/-- The item of a literal that begins at `here` with the byte `c`: an escape or a character, or the
    closing mark, which is the last item. The opening mark is at `start`. -/
def literalItemOf (b : Bytes) (quote : Quote) (start here : Nat) (c : Char) :
    Pass (Option (List Decoded)) :=
  if c = quote.mark then do
    moveTo (here + 1)
    return none
  else if c = '\x00' then
    fatal .unexpectedEnd (.clamped start (here - start + 1) (here - start))
  else if c = '\\' then do
    let decoded ← escape b
    return some (decoded.toList.map (⟨·, here⟩))
  else do
    let d := b.charAt here
    moveTo (here + d.utf8Size)
    return some [⟨d, here⟩]

/-- The item of a literal at the offset. -/
def literalItem (b : Bytes) (quote : Quote) (start : Nat) : Pass (Option (List Decoded)) := do
  let here ← offset
  literalItemOf b quote start here (b.peek here)

/-- The items of a literal, one behind the other. -/
def literalItems (b : Bytes) (quote : Quote) (start : Nat) : Steps b.size Decoded where
  step := literalItem b quote start
  le_of_last := by
    intro p q h
    obtain ⟨here, r, hhere, h⟩ := run_bind_eq_some h
    cases hhere
    unfold literalItemOf at h
    split at h
    · cases h
      exact Nat.le_succ _
    · split at h
      · cases h
      · split at h
        · obtain ⟨_, _, _, h⟩ := run_bind_eq_some h
          cases h
        · cases h
  lt_of_items := by
    intro p q items h
    obtain ⟨here, r, hhere, h⟩ := run_bind_eq_some h
    cases hhere
    unfold literalItemOf at h
    split at h
    · cases h
    · split at h
      · cases h
      · next hend =>
        refine ⟨Bytes.lt_size_of_peek_ne hend, ?_⟩
        split at h
        · obtain ⟨d, r, hesc, h⟩ := run_bind_eq_some h
          have := lt_of_escape hesc
          cases h
          omega
        · cases h
          exact Nat.lt_add_of_pos_right (b.charAt p.offset).utf8Size_pos

/-- The contents of the literal at the offset. -/
def literal (b : Bytes) (quote : Quote) : Pass (List Decoded) := do
  let start ← offset
  moveTo (start + 1)
  (literalItems b quote start).all

/-- A literal goes forward. -/
theorem lt_of_literal {b : Bytes} {quote : Quote} {p q : Progress} {contents : List Decoded}
    (h : (literal b quote).run p = (some contents, q)) : p.offset < q.offset :=
  Nat.lt_of_succ_le ((literalItems b quote p.offset).le_of_all h)

end Pass

end SourceScan
