import SourceScan.Pass.Tokens

/-!
# Pass/Traced.lean -- what a pass uses its offsets for

A pass takes differences of offsets, cuts out what stands between two of them, and looks at the
character at one. Each of the three gives something for any offsets at all: zero for a difference
below zero, no text for a cut inside a character, U+0000 where no character begins. So the pass goes
on where an offset is not what it is taken for, and what it comes to does not tell. Here its parts
put their uses of offsets on record.

* `OffsetUse`: the three uses of offsets.
* `Traced α`: a part of a pass, and the uses it makes from a point on. `Traced.difference`,
  `Traced.slice` and `Traced.charAt` make one use each (`Traced.use`).
* `TracedSteps`: steps, and the uses each of them makes.
* `Traced.escape`, `Traced.literal`, `Traced.tokens`: the parts of a pass with their record. **They
  are the parts of the pass** (`Traced.pass_escape`, `Traced.pass_literal`, `Traced.pass_tokens`).
-/

namespace SourceScan

open Text Alphabet

/-! ## 1. Records -/

/-- A use of offsets, with what it gives where that is a matter of the text. -/
inductive OffsetUse where
  /-- how far the first offset is behind the second -/
  | difference (a b : Nat)
  /-- the text between two offsets -/
  | slice (start stop : Nat) (text : List Char)
  /-- the character at an offset -/
  | charAt (offset : Nat) (c : Char)
deriving DecidableEq, Repr

/-- A part of a pass, and the uses of offsets that it makes from a point on. -/
structure Traced (α : Type) where
  pass : Pass α
  uses : Progress → List OffsetUse

namespace Traced

variable {α β : Type}

/-- A part and one that goes on from its result. The second makes its uses if it is reached. -/
def andThen (x : Traced α) (next : α → Traced β) : Traced β where
  pass := x.pass >>= fun a => (next a).pass
  uses p := x.uses p ++
    match x.pass.run p with
    | (some a, q) => (next a).uses q
    | (none, _) => []

instance : Monad Traced where
  pure a := ⟨pure a, fun _ => []⟩
  bind := andThen

/-- A part that makes no use of offsets. -/
def quiet (x : Pass α) : Traced α :=
  ⟨x, fun _ => []⟩

/-- What one use of offsets gives. -/
def use (a : α) (u : OffsetUse) : Traced α :=
  ⟨pure a, fun _ => [u]⟩

/-- How far an offset is behind another. -/
def difference (a b : Nat) : Traced Nat :=
  use (a - b) (.difference a b)

/-- The text between two offsets. -/
def slice (b : Bytes) (start stop : Nat) : Traced (List Char) :=
  use (b.slice start stop) (.slice start stop (b.slice start stop))

/-- The character at an offset. -/
def charAt (b : Bytes) (offset : Nat) : Traced Char :=
  use (b.charAt offset) (.charAt offset (b.charAt offset))

section Pass

@[simp] theorem pass_pure (a : α) : (pure a : Traced α).pass = pure a := rfl

@[simp] theorem pass_quiet (x : Pass α) : (quiet x).pass = x := rfl

@[simp] theorem pass_bind (x : Traced α) (next : α → Traced β) :
    (x >>= next).pass = x.pass >>= fun a => (next a).pass := rfl

@[simp] theorem pass_use (a : α) (u : OffsetUse) : (use a u).pass = pure a := rfl

@[simp] theorem pass_ite (p : Prop) [Decidable p] (x y : Traced α) :
    (if p then x else y).pass = if p then x.pass else y.pass :=
  apply_ite Traced.pass p x y

end Pass

end Traced

/-- Steps, and the uses of offsets that each of them makes. -/
structure TracedSteps (size : Nat) (α : Type) where
  steps : Steps size α
  step : Traced (Option (List α))
  pass_step : step.pass = steps.step

namespace TracedSteps

variable {size : Nat} {α : Type}

/-- The uses that all steps from a point on make. -/
def uses (t : TracedSteps size α) (p : Progress) : List OffsetUse :=
  match _h : t.steps.step.run p with
  | (some (some _), q) => t.step.uses p ++ t.uses q
  | _ => t.step.uses p
termination_by size - p.offset
decreasing_by
  have := t.steps.lt_of_items _h
  omega

/-- All steps, the last included. -/
def all (t : TracedSteps size α) : Traced (List α) :=
  ⟨t.steps.all, t.uses⟩

end TracedSteps

namespace Traced

/-! ## 2. Escapes and literals -/

/-- A numeric escape that begins at `start`, its digits at `first`. -/
def numericEscape (b : Bytes) (start : Nat) (radix : Radix) (first : Nat) :
    Traced (Option Char) := do
  let stop := b.runEnd radix.isDigit first
  quiet (Pass.moveTo stop)
  if stop = first then
    let length ← difference stop start
    let pointer ← difference stop start
    quiet (Pass.fatal (.missingDigits radix) (.clamped start (length + 1) pointer))
  else
    let text ← slice b start stop
    let value ← quiet (Pass.numeral .escapeCode start text)
    if value.exceeds Escape.maxCode then
      let length ← difference stop start
      quiet (Pass.warn ⟨value, .clamped start length 0⟩)
    return some (Escape.byteChar value)

/-- No escape begins at `start`. -/
def unknownEscape (b : Bytes) (start : Nat) : Traced (Option Char) :=
  if b.size ≤ start + 1 then
    quiet (Pass.fatal .unexpectedEnd (.clamped start 2 1))
  else do
    let c ← charAt b (start + 1)
    quiet (Pass.moveTo (start + 1 + c.utf8Size))
    quiet (Pass.fatal (.unknownEscape c) (.clamped start (1 + c.utf8Size) 1))

/-- The escape that begins at `start`, of which `follow` is the byte behind the backslash. -/
def escapeOf (b : Bytes) (start : Nat) (follow : Char) : Traced (Option Char) :=
  if follow = ';' then pure none
  else match Escape.named? follow with
    | some d => pure (some d)
    | none =>
      if follow.isDigit then numericEscape b start .decimal (start + 1)
      else match Radix.ofEscapeLetter? follow with
        | some radix => numericEscape b start radix (start + 2)
        | none => unknownEscape b start

/-- The character that the escape at the offset stands for, if it stands for one. -/
def escape (b : Bytes) : Traced (Option Char) := do
  let start ← quiet Pass.offset
  quiet (Pass.moveTo (start + 2))
  escapeOf b start (b.peek (start + 1))

/-- The item of a literal that begins at `here` with the byte `c`. -/
def literalItemOf (b : Bytes) (quote : Quote) (start here : Nat) (c : Char) :
    Traced (Option (List Decoded)) :=
  if c = quote.mark then do
    quiet (Pass.moveTo (here + 1))
    return none
  else if c = '\x00' then do
    let length ← difference here start
    let pointer ← difference here start
    quiet (Pass.fatal .unexpectedEnd (.clamped start (length + 1) pointer))
  else if c = '\\' then do
    let decoded ← escape b
    return some (decoded.toList.map (⟨·, here⟩))
  else do
    let d ← charAt b here
    quiet (Pass.moveTo (here + d.utf8Size))
    return some [⟨d, here⟩]

/-- The item of a literal at the offset. -/
def literalItem (b : Bytes) (quote : Quote) (start : Nat) : Traced (Option (List Decoded)) := do
  let here ← quiet Pass.offset
  literalItemOf b quote start here (b.peek here)

section Pass

variable {b : Bytes}

theorem pass_numericEscape (start : Nat) (radix : Radix) (first : Nat) :
    (numericEscape b start radix first).pass = Pass.numericEscape b start radix first := by
  simp only [numericEscape, Pass.numericEscape, pass_bind, pass_quiet, pass_ite, difference, slice,
    pass_pure, pass_use, pure_bind]

theorem pass_unknownEscape (start : Nat) :
    (unknownEscape b start).pass = Pass.unknownEscape b start := by
  simp only [unknownEscape, Pass.unknownEscape, pass_bind, pass_quiet, pass_ite, charAt, pass_use,
    pure_bind]

theorem pass_escapeOf (start : Nat) (follow : Char) :
    (escapeOf b start follow).pass = Pass.escapeOf b start follow := by
  unfold escapeOf Pass.escapeOf
  cases Escape.named? follow with
  | some d => simp only [pass_ite, pass_pure]
  | none =>
    cases Radix.ofEscapeLetter? follow with
    | some radix => simp only [pass_ite, pass_pure, pass_numericEscape]
    | none => simp only [pass_ite, pass_pure, pass_numericEscape, pass_unknownEscape]

/-- **An escape on record is an escape.** -/
theorem pass_escape (b : Bytes) : (escape b).pass = Pass.escape b := by
  simp only [escape, Pass.escape, pass_bind, pass_quiet, pass_escapeOf]

theorem pass_literalItem (quote : Quote) (start : Nat) :
    (literalItem b quote start).pass = Pass.literalItem b quote start := by
  simp only [literalItem, Pass.literalItem, literalItemOf, Pass.literalItemOf, pass_bind, pass_quiet,
    pass_ite, difference, charAt, pass_escape, pass_pure, pass_use, pure_bind]

end Pass

/-- The items of a literal, one behind the other. -/
def literalItems (b : Bytes) (quote : Quote) (start : Nat) : TracedSteps b.size Decoded where
  steps := Pass.literalItems b quote start
  step := literalItem b quote start
  pass_step := pass_literalItem quote start

/-- The contents of the literal at the offset. -/
def literal (b : Bytes) (quote : Quote) : Traced (List Decoded) := do
  let start ← quiet Pass.offset
  quiet (Pass.moveTo (start + 1))
  (literalItems b quote start).all

/-- **A literal on record is a literal.** -/
theorem pass_literal (b : Bytes) (quote : Quote) : (literal b quote).pass = Pass.literal b quote :=
  rfl

/-! ## 3. Tokens -/

/-- A token that begins at `start` and ends at `stop`, or at the end of the text. -/
def tokenOf (b : Bytes) (lexeme : Lexeme) (start stop : Nat) : Traced Token := do
  let length ← difference (min stop b.size) start
  return ⟨lexeme, start, length⟩

/-- A char literal. -/
def charLiteral (b : Bytes) : Traced (Option Token) := do
  let start ← quiet Pass.offset
  let contents ← literal b .char
  let stop ← quiet Pass.offset
  let length ← difference stop start
  match contents with
  | [] => quiet (Pass.fatal .emptyCharLiteral (.clamped start length 1))
  | [d] => return some (← tokenOf b (.charLiteral d.char) start stop)
  | _ :: second :: _ =>
    let pointer ← difference second.offset start
    quiet (Pass.fatal .crowdedCharLiteral (.clamped start length pointer))

/-- A string literal. -/
def stringLiteral (b : Bytes) : Traced (Option Token) := do
  let start ← quiet Pass.offset
  let contents ← literal b .string
  let stop ← quiet Pass.offset
  return some (← tokenOf b (.stringLiteral (String.ofList (contents.map Decoded.char))) start stop)

/-- A numeral. -/
def numeralToken (b : Bytes) : Traced (Option Token) := do
  let start ← quiet Pass.offset
  let stop := b.runEnd continuesNumeral (start + 1)
  quiet (Pass.moveTo stop)
  let text ← slice b start stop
  let value ← quiet (Pass.numeral .literal start text)
  return some (← tokenOf b (.numeral value) start stop)

/-- A character and the run of a class behind it. -/
def wordToken (b : Bytes) (accept : Char → Bool) (lexeme : String → Lexeme) :
    Traced (Option Token) := do
  let start ← quiet Pass.offset
  let stop := b.runEnd accept (start + 1)
  quiet (Pass.moveTo stop)
  let text ← slice b start stop
  return some (← tokenOf b (lexeme (String.ofList text)) start stop)

/-- No piece begins here. -/
def strayCharacter (b : Bytes) : Traced (Option Token) := do
  let start ← quiet Pass.offset
  let c ← charAt b start
  quiet (Pass.fatal (.strayCharacter c) (.clamped start c.utf8Size 0))

/-- The piece that begins with the byte `c`. -/
def pieceOf (b : Bytes) (c : Char) : Traced (Option Token) :=
  if isSpace c then quiet (Pass.spaces b)
  else if c = commentMark then quiet (Pass.comment b)
  else if c = Quote.char.mark then charLiteral b
  else if c = Quote.string.mark then stringLiteral b
  else if c.isDigit then numeralToken b
  else if startsIdentifier c then wordToken b continuesIdentifier .identifier
  else if isOperator c then wordToken b isOperator .operator
  else if isPunctuation c then quiet (Pass.punctuation c)
  else strayCharacter b

/-- The tokens of the piece at the offset, or nothing at the end of the text. -/
def piece (b : Bytes) : Traced (Option (List Token)) := do
  let start ← quiet Pass.offset
  if b.size ≤ start then return none
  else
    let token ← pieceOf b (b.peek start)
    return some token.toList

section Pass

variable {b : Bytes}

theorem pass_tokenOf (lexeme : Lexeme) (start stop : Nat) :
    (tokenOf b lexeme start stop).pass = pure (Pass.tokenOf b lexeme start stop) := rfl

theorem pass_charLiteral : (charLiteral b).pass = Pass.charLiteral b := by
  unfold charLiteral Pass.charLiteral
  simp only [pass_bind, pass_quiet, pass_literal, difference, pass_use, pure_bind]
  congr 1; funext start; congr 1; funext contents; congr 1; funext stop
  obtain _ | ⟨d, _ | ⟨second, others⟩⟩ := contents
  · rfl
  · rfl
  · rfl

theorem pass_stringLiteral : (stringLiteral b).pass = Pass.stringLiteral b := by
  simp only [stringLiteral, Pass.stringLiteral, pass_bind, pass_quiet, pass_literal, pass_tokenOf,
    pass_pure, pure_bind]

theorem pass_numeralToken : (numeralToken b).pass = Pass.numeralToken b := by
  simp only [numeralToken, Pass.numeralToken, pass_bind, pass_quiet, slice, pass_tokenOf, pass_pure,
    pass_use, pure_bind]

theorem pass_wordToken (accept : Char → Bool) (lexeme : String → Lexeme) :
    (wordToken b accept lexeme).pass = Pass.wordToken b accept lexeme := by
  simp only [wordToken, Pass.wordToken, pass_bind, pass_quiet, slice, pass_tokenOf, pass_pure,
    pass_use, pure_bind]

theorem pass_strayCharacter : (strayCharacter b).pass = Pass.strayCharacter b := by
  simp only [strayCharacter, Pass.strayCharacter, pass_bind, pass_quiet, charAt, pass_use,
    pure_bind]

theorem pass_pieceOf (c : Char) : (pieceOf b c).pass = Pass.pieceOf b c := by
  simp only [pieceOf, Pass.pieceOf, pass_ite, pass_quiet, pass_charLiteral, pass_stringLiteral,
    pass_numeralToken, pass_wordToken, pass_strayCharacter]

theorem pass_piece : (piece b).pass = Pass.piece b := by
  simp only [piece, Pass.piece, pass_bind, pass_quiet, pass_ite, pass_pieceOf, pass_pure]

end Pass

/-- The pieces of a text, one behind the other. -/
def pieces (b : Bytes) : TracedSteps b.size Token where
  steps := Pass.pieces b
  step := piece b
  pass_step := pass_piece

/-- The tokens from the offset to the end of the text. -/
def tokens (b : Bytes) : Traced (List Token) :=
  (pieces b).all

/-- **The tokens on record are the tokens.** -/
theorem pass_tokens (b : Bytes) : (tokens b).pass = Pass.tokens b :=
  rfl

end Traced

end SourceScan
