import SourceScan.Pass.Literal
import SourceScan.Token.Alphabet
import SourceScan.Token.Basic

/-!
# Pass/Tokens.lean -- the pass that cuts a text into tokens

A pass over a text goes from piece to piece. The byte it stands at decides what the piece is; runs
go as far as their class does, literals to their closing mark. It ends at the end of the text, or
halts where no piece begins or a piece is faulty.

* `Pass.piece`: the piece at the offset, and the token it is, if it is one.
* `Pass.tokens`: the tokens from the offset to the end of the text.
* `tokenize`: the tokens of a text, with the log the pass is to write to.
-/

namespace SourceScan

open Text Alphabet

namespace Pass

/-- A token that begins at `start` and ends at `stop`, or at the end of the text. -/
def tokenOf (b : Bytes) (lexeme : Lexeme) (start stop : Nat) : Token :=
  ⟨lexeme, start, min stop b.size - start⟩

/-- A run of spaces. -/
def spaces (b : Bytes) : Pass (Option Token) := do
  moveTo (b.runEnd isSpace (← offset))
  return none

/-- A comment and the newline that ends it, or one byte more than there is. -/
def comment (b : Bytes) : Pass (Option Token) := do
  moveTo (b.runEnd (· ≠ '\n') ((← offset) + 1) + 1)
  return none

/-- A char literal: it has to stand for one character. The fault of one with more is at the
    second. -/
def charLiteral (b : Bytes) : Pass (Option Token) := do
  let start ← offset
  let contents ← literal b .char
  let stop ← offset
  match contents with
  | [] => fatal .emptyCharLiteral (.clamped start (stop - start) 1)
  | [d] => return some (tokenOf b (.charLiteral d.char) start stop)
  | _ :: second :: _ =>
    fatal .crowdedCharLiteral (.clamped start (stop - start) (second.offset - start))

/-- A string literal. -/
def stringLiteral (b : Bytes) : Pass (Option Token) := do
  let start ← offset
  let contents ← literal b .string
  let stop ← offset
  return some (tokenOf b (.stringLiteral (String.ofList (contents.map Decoded.char))) start stop)

/-- A numeral: a digit and the run of a class behind it, whatever its radix. -/
def numeralToken (b : Bytes) : Pass (Option Token) := do
  let start ← offset
  let stop := b.runEnd continuesNumeral (start + 1)
  moveTo stop
  let value ← numeral .literal start (b.slice start stop)
  return some (tokenOf b (.numeral value) start stop)

/-- A character and the run of a class behind it, which is what the lexeme is made of. -/
def wordToken (b : Bytes) (accept : Char → Bool) (lexeme : String → Lexeme) :
    Pass (Option Token) := do
  let start ← offset
  let stop := b.runEnd accept (start + 1)
  moveTo stop
  return some (tokenOf b (lexeme (String.ofList (b.slice start stop))) start stop)

/-- A character that is a token. -/
def punctuation (c : Char) : Pass (Option Token) := do
  let start ← offset
  moveTo (start + 1)
  return some ⟨.punctuation c, start, 1⟩

/-- No piece begins here. -/
def strayCharacter (b : Bytes) : Pass (Option Token) := do
  let start ← offset
  let c := b.charAt start
  fatal (.strayCharacter c) (.clamped start c.utf8Size 0)

/-- The piece that begins with the byte `c`. -/
def pieceOf (b : Bytes) (c : Char) : Pass (Option Token) :=
  if isSpace c then spaces b
  else if c = commentMark then comment b
  else if c = Quote.char.mark then charLiteral b
  else if c = Quote.string.mark then stringLiteral b
  else if c.isDigit then numeralToken b
  else if startsIdentifier c then wordToken b continuesIdentifier .identifier
  else if isOperator c then wordToken b isOperator .operator
  else if isPunctuation c then punctuation c
  else strayCharacter b

/-- The tokens of the piece at the offset, one or none, or nothing at the end of the text. -/
def piece (b : Bytes) : Pass (Option (List Token)) := do
  let start ← offset
  if b.size ≤ start then return none
  else
    let token ← pieceOf b (b.peek start)
    return some token.toList

theorem lt_of_spaces {b : Bytes} {p q : Progress} {token : Option Token} (hp : p.offset < b.size)
    (hspace : isSpace (b.peek p.offset) = true) (h : (spaces b).run p = (some token, q)) :
    p.offset < q.offset := by
  cases h
  exact Bytes.lt_runEnd hp hspace

theorem lt_of_comment {b : Bytes} {p q : Progress} {token : Option Token}
    (h : (comment b).run p = (some token, q)) : p.offset < q.offset := by
  cases h
  have := b.le_runEnd (· ≠ '\n') (p.offset + 1)
  show p.offset < b.runEnd (· ≠ '\n') (p.offset + 1) + 1
  omega

theorem lt_of_charLiteral {b : Bytes} {p q : Progress} {token : Option Token}
    (h : (charLiteral b).run p = (some token, q)) : p.offset < q.offset := by
  obtain ⟨start, r, hstart, h⟩ := run_bind_eq_some h
  cases hstart
  obtain ⟨contents, r, hliteral, h⟩ := run_bind_eq_some h
  obtain ⟨stop, r', hstop, h⟩ := run_bind_eq_some h
  cases hstop
  split at h
  · cases h
  · cases h
    exact lt_of_literal hliteral
  · cases h

theorem lt_of_stringLiteral {b : Bytes} {p q : Progress} {token : Option Token}
    (h : (stringLiteral b).run p = (some token, q)) : p.offset < q.offset := by
  obtain ⟨start, r, hstart, h⟩ := run_bind_eq_some h
  cases hstart
  obtain ⟨contents, r, hliteral, h⟩ := run_bind_eq_some h
  cases h
  exact lt_of_literal hliteral

theorem lt_of_numeralToken {b : Bytes} {p q : Progress} {token : Option Token}
    (h : (numeralToken b).run p = (some token, q)) : p.offset < q.offset := by
  obtain ⟨start, r, hstart, h⟩ := run_bind_eq_some h
  cases hstart
  obtain ⟨_, r, hmove, h⟩ := run_bind_eq_some h
  cases hmove
  obtain ⟨value, r, hvalue, h⟩ := run_bind_eq_some h
  have hr : r.offset = b.runEnd continuesNumeral (p.offset + 1) := offset_of_numeral hvalue
  have := b.le_runEnd continuesNumeral (p.offset + 1)
  cases h
  omega

theorem lt_of_wordToken {b : Bytes} {accept : Char → Bool} {lexeme : String → Lexeme}
    {p q : Progress} {token : Option Token}
    (h : (wordToken b accept lexeme).run p = (some token, q)) : p.offset < q.offset := by
  cases h
  exact b.le_runEnd accept (p.offset + 1)

/-- A piece goes forward. -/
theorem lt_of_pieceOf {b : Bytes} {p q : Progress} {token : Option Token}
    (hp : p.offset < b.size) (h : (pieceOf b (b.peek p.offset)).run p = (some token, q)) :
    p.offset < q.offset := by
  unfold pieceOf at h
  split at h
  · next hspace => exact lt_of_spaces hp hspace h
  split at h
  · exact lt_of_comment h
  split at h
  · exact lt_of_charLiteral h
  split at h
  · exact lt_of_stringLiteral h
  split at h
  · exact lt_of_numeralToken h
  split at h
  · exact lt_of_wordToken h
  split at h
  · exact lt_of_wordToken h
  split at h
  · cases h
    exact Nat.lt_succ_self _
  · cases h

/-- The pieces of a text, one behind the other. -/
def pieces (b : Bytes) : Steps b.size Token where
  step := piece b
  le_of_last := by
    intro p q h
    obtain ⟨start, r, hstart, h⟩ := run_bind_eq_some h
    cases hstart
    split at h
    · cases h
      exact Nat.le_refl _
    · obtain ⟨token, r, _, h⟩ := run_bind_eq_some h
      cases h
  lt_of_items := by
    intro p q items h
    obtain ⟨start, r, hstart, h⟩ := run_bind_eq_some h
    cases hstart
    split at h
    · cases h
    · next hend =>
      have hp : p.offset < b.size := Nat.lt_of_not_le hend
      obtain ⟨token, r, hpiece, h⟩ := run_bind_eq_some h
      cases h
      exact ⟨hp, lt_of_pieceOf hp hpiece⟩

/-- The tokens from the offset to the end of the text. -/
def tokens (b : Bytes) : Pass (List Token) :=
  (pieces b).all

end Pass

/-- Cut a text into tokens, with a log to write to: the log afterwards, and the tokens, unless the
    pass halts. -/
def tokenize (source : List Char) (log : Log) : Log × Option (List Token) :=
  let pass := (Pass.tokens (Bytes.of source)).run ⟨0, log⟩
  (pass.2.log, pass.1)

/-- The tokens of a text, or the messages of the pass if it halts. -/
def tokensOrMessages (source : List Char) : Except (List Message) (List Token) :=
  match tokenize source .empty with
  | (_, some tokens) => .ok tokens
  | (log, none) => .error log.messages

end SourceScan
