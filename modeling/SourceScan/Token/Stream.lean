import SourceScan.Literal.Basic
import SourceScan.Token.Alphabet
import SourceScan.Token.Basic

/-!
# Token/Stream.lean -- the tokens of a text

A text is a sequence of pieces: spaces and comments, which are no tokens, and lexemes. The first
character of a piece decides its kind; runs go as far as their class does, literals to their closing
mark. A character that begins no piece ends the scan.

* `Piece.read`: the piece at the front of a text; `Piece.read_cases`: what it can be.
* **`Piece.inside_of_read`**: a piece takes whole characters of the text and stops behind them. Only
  a comment at the end of the text goes one byte further.
* `tokensFrom`: the pieces of a text from an offset on, front to back.
* `tokensOf`: the tokens of a whole text.
-/

namespace SourceScan

open Text Alphabet

/-- A piece of a text: the token it is, if it is one, the number of characters it takes behind the
    first, and the offset behind it. -/
structure Piece where
  token : Option Token
  count : Nat
  stop : Nat
deriving DecidableEq, Repr

namespace Piece

/-! ## 1. Pieces -/

/-- A piece that is a token. -/
def ofToken (lexeme : Lexeme) (start count stop : Nat) : Piece :=
  ⟨some ⟨lexeme, start, stop - start⟩, count, stop⟩

/-- A run of spaces, the first of them `c`. -/
def spaces (start : Nat) (c : Char) (cs : List Char) : Piece :=
  let run := cs.takeWhile isSpace
  ⟨none, run.length, start + width (c :: run)⟩

/-- A comment with first character `c`, up to the end of its line. It takes the newline as well; at
    the end of the text, its offset goes one byte on all the same. -/
def comment (start : Nat) (c : Char) (cs : List Char) : Piece :=
  let run := cs.takeWhile (· ≠ '\n')
  ⟨none, run.length + 1, start + width (c :: run) + 1⟩

/-- A character `c` and the run of a class behind it, which is what the lexeme is made of. -/
def word (accept : Char → Bool) (lexeme : String → Lexeme) (start : Nat) (c : Char)
    (cs : List Char) : Piece :=
  let run := cs.takeWhile accept
  .ofToken (lexeme (String.ofList (c :: run))) start run.length (start + width (c :: run))

/-- A numeral with first digit `c`. -/
def numeral (start : Nat) (c : Char) (cs : List Char) : Stage Piece := do
  let run := cs.takeWhile continuesNumeral
  let value ← Numeral.read .literal start (c :: run)
  return .ofToken (.numeral value) start run.length (start + width (c :: run))

/-- A string literal behind its opening mark. -/
def stringLiteral (start : Nat) (cs : List Char) : Stage Piece := do
  let literal ← Literal.body .string start (start + 1) cs
  return .ofToken (.stringLiteral (String.ofList literal.chars)) start literal.count literal.stop

/-- The piece that a char literal is: it has to stand for one character. The fault of one with more
    is at the second. -/
def ofCharLiteral (start : Nat) (literal : Literal) : Stage Piece :=
  let length := literal.stop - start
  match literal.contents with
  | [] => .fail .emptyCharLiteral (.clamped start length 1) literal.stop
  | [d] => pure (.ofToken (.charLiteral d.char) start literal.count literal.stop)
  | _ :: second :: _ =>
    .fail .crowdedCharLiteral (.clamped start length (second.offset - start)) literal.stop

/-- A char literal behind its opening mark. -/
def charLiteral (start : Nat) (cs : List Char) : Stage Piece := do
  let literal ← Literal.body .char start (start + 1) cs
  ofCharLiteral start literal

/-- The piece whose first character is `c`, at offset `start`. -/
def read (start : Nat) (c : Char) (cs : List Char) : Stage Piece :=
  if isSpace c then pure (spaces start c cs)
  else if c = commentMark then pure (comment start c cs)
  else if c = Quote.char.mark then charLiteral start cs
  else if c = Quote.string.mark then stringLiteral start cs
  else if c.isDigit then numeral start c cs
  else if startsIdentifier c then pure (word continuesIdentifier .identifier start c cs)
  else if isOperator c then pure (word isOperator .operator start c cs)
  else if isPunctuation c then pure (.ofToken (.punctuation c) start 0 (start + 1))
  else .fail (.strayCharacter c) (.clamped start c.utf8Size 0) start

/-! ## 2. Which piece begins with a character -/

section Kinds

variable {start : Nat} {c : Char} {cs : List Char}

theorem read_space (h : isSpace c = true) : read start c cs = pure (spaces start c cs) := by
  rw [read, if_pos h]

theorem read_comment : read start commentMark cs = pure (comment start commentMark cs) := by
  rw [read, if_neg (by decide), if_pos rfl]

theorem read_charLiteral : read start Quote.char.mark cs = charLiteral start cs := by
  rw [read, if_neg (by decide), if_neg (by decide), if_pos rfl]

theorem read_stringLiteral : read start Quote.string.mark cs = stringLiteral start cs := by
  rw [read, if_neg (by decide), if_neg (by decide), if_neg (by decide), if_pos rfl]

theorem read_numeral (h : c.isDigit = true) : read start c cs = numeral start c cs := by
  obtain ⟨hspace, hcomment, hchar, hstring⟩ := isDigit_alone c h
  rw [read, if_neg hspace, if_neg hcomment, if_neg (show ¬ c = Quote.char.mark from hchar),
    if_neg (show ¬ c = Quote.string.mark from hstring), if_pos h]

theorem read_identifier (h : startsIdentifier c = true) :
    read start c cs = pure (word continuesIdentifier .identifier start c cs) := by
  obtain ⟨hspace, hcomment, hchar, hstring, hdigit⟩ := startsIdentifier_alone c h
  rw [read, if_neg hspace, if_neg hcomment, if_neg (show ¬ c = Quote.char.mark from hchar),
    if_neg (show ¬ c = Quote.string.mark from hstring), if_neg hdigit, if_pos h]

theorem read_operator (h : isOperator c = true) :
    read start c cs = pure (word isOperator .operator start c cs) := by
  obtain ⟨hspace, hcomment, hchar, hstring, hdigit, hidentifier⟩ := isOperator_alone c h
  rw [read, if_neg hspace, if_neg hcomment, if_neg (show ¬ c = Quote.char.mark from hchar),
    if_neg (show ¬ c = Quote.string.mark from hstring), if_neg hdigit, if_neg hidentifier, if_pos h]

theorem read_punctuation (h : isPunctuation c = true) :
    read start c cs = pure (.ofToken (.punctuation c) start 0 (start + 1)) := by
  obtain ⟨hspace, hcomment, hchar, hstring, hdigit, hidentifier, hoperator⟩ :=
    isPunctuation_alone c h
  rw [read, if_neg hspace, if_neg hcomment, if_neg (show ¬ c = Quote.char.mark from hchar),
    if_neg (show ¬ c = Quote.string.mark from hstring), if_neg hdigit, if_neg hidentifier,
    if_neg hoperator, if_pos h]

end Kinds

/-- **What a piece can be**: what holds of each kind holds of the piece that begins with `c`. -/
theorem read_cases {motive : (Nat → List Char → Stage Piece) → Prop} (c : Char)
    (hspaces : isSpace c = true → motive fun start cs => pure (spaces start c cs))
    (hcomment : c = commentMark → motive fun start cs => pure (comment start c cs))
    (hchar : c = Quote.char.mark → motive fun start cs => charLiteral start cs)
    (hstring : c = Quote.string.mark → motive fun start cs => stringLiteral start cs)
    (hnumeral : c.isDigit = true → motive fun start cs => numeral start c cs)
    (hidentifier : startsIdentifier c = true →
      motive fun start cs => pure (word continuesIdentifier .identifier start c cs))
    (hoperator : isOperator c = true →
      motive fun start cs => pure (word isOperator .operator start c cs))
    (hpunctuation : isPunctuation c = true →
      motive fun start _ => pure (.ofToken (.punctuation c) start 0 (start + 1)))
    (hstray : motive fun start _ =>
      .fail (.strayCharacter c) (.clamped start c.utf8Size 0) start) :
    motive fun start cs => read start c cs := by
  unfold read
  split
  · next h => exact hspaces h
  split
  · next h => exact hcomment h
  split
  · next h => exact hchar h
  split
  · next h => exact hstring h
  split
  · next h => exact hnumeral h
  split
  · next h => exact hidentifier h
  split
  · next h => exact hoperator h
  split
  · next h => exact hpunctuation h
  · exact hstray

/-- No piece begins with a character beyond ASCII. -/
theorem read_of_le {start : Nat} {c : Char} (cs : List Char) (h : 128 ≤ c.toNat) :
    read start c cs = .fail (.strayCharacter c) (.clamped start c.utf8Size 0) start := by
  have hbeyond : ∀ {P : Prop}, c.toNat < 128 → P := fun hlt => absurd hlt (Nat.not_lt.mpr h)
  refine read_cases (motive := fun read => read start cs =
    .fail (.strayCharacter c) (.clamped start c.utf8Size 0) start) c ?_ ?_ ?_ ?_ ?_ ?_ ?_ ?_ rfl
  · exact fun hspace => hbeyond (toNat_lt_of_isSpace hspace)
  · exact fun hcomment => hbeyond (hcomment ▸ by decide)
  · exact fun hchar => hbeyond (hchar ▸ by decide)
  · exact fun hstring => hbeyond (hstring ▸ by decide)
  · exact fun hdigit => hbeyond (toNat_lt_of_isDigit hdigit)
  · exact fun hidentifier => hbeyond (toNat_lt_of_startsIdentifier hidentifier)
  · exact fun hoperator => hbeyond (toNat_lt_of_isOperator hoperator)
  · exact fun hpunctuation => hbeyond (toNat_lt_of_isPunctuation hpunctuation)

/-! ## 3. Where a piece stops -/

/-- A piece takes no more characters than there are behind its first, and stops behind them. -/
structure Inside (start : Nat) (c : Char) (cs : List Char) (p : Piece) : Prop where
  count_le : p.count ≤ cs.length
  stop_eq : p.stop = start + width (c :: cs.take p.count)

section Inside

variable {start : Nat} {c : Char} {cs : List Char}

theorem inside_of_takeWhile {accept : Char → Bool} {p : Piece}
    (hcount : p.count = (cs.takeWhile accept).length)
    (hstop : p.stop = start + width (c :: cs.takeWhile accept)) : Inside start c cs p where
  count_le := hcount ▸ (List.takeWhile_prefix accept).length_le
  stop_eq := by
    rw [hcount, hstop]
    exact congrArg (fun run => start + width (c :: run))
      (List.prefix_iff_eq_take.mp (List.takeWhile_prefix accept))

theorem inside_of_numeral {p : Piece} (h : (numeral start c cs).outcome = .ok p) :
    Inside start c cs p := by
  obtain ⟨value, _, h⟩ := Stage.bind_eq_ok h
  cases h
  exact @inside_of_takeWhile start c cs continuesNumeral _ rfl rfl

theorem inside_of_literal {quote : Quote} {l : Literal} {p : Piece}
    (h : (Literal.body quote start (start + 1) cs).outcome = .ok l) (hcount : p.count = l.count)
    (hstop : p.stop = l.stop) : Inside start quote.mark cs p := by
  obtain ⟨hle, hbody⟩ := Literal.stop_of_body h
  refine ⟨hcount ▸ hle, ?_⟩
  rw [hstop, hbody, hcount, width_cons, quote.utf8Size_mark, Nat.add_assoc]

theorem inside_of_charLiteral {p : Piece} (h : (charLiteral start cs).outcome = .ok p) :
    Inside start Quote.char.mark cs p := by
  obtain ⟨l, hbody, h⟩ := Stage.bind_eq_ok h
  unfold ofCharLiteral at h
  dsimp only at h
  split at h
  · cases h
  · cases h
    exact inside_of_literal hbody rfl rfl
  · cases h

theorem inside_of_stringLiteral {p : Piece} (h : (stringLiteral start cs).outcome = .ok p) :
    Inside start Quote.string.mark cs p := by
  obtain ⟨l, hbody, h⟩ := Stage.bind_eq_ok h
  cases h
  exact inside_of_literal hbody rfl rfl

/-- A line that a newline ends. -/
theorem takeWhile_line {line : List Char} (hline : '\n' ∉ line) (rest : List Char) :
    (line ++ '\n' :: rest).takeWhile (· ≠ '\n') = line := by
  have hall : ∀ d ∈ line, decide (d ≠ '\n') = true := fun _ hd =>
    decide_eq_true fun h => hline (h ▸ hd)
  rw [List.takeWhile_append_of_pos hall]
  exact List.append_nil line

/-- A line that the end of the text ends. -/
theorem takeWhile_lastLine {line : List Char} (hline : '\n' ∉ line) :
    line.takeWhile (· ≠ '\n') = line := by
  have hall : ∀ d ∈ line, decide (d ≠ '\n') = true := fun _ hd =>
    decide_eq_true fun h => hline (h ▸ hd)
  have hrun := @List.takeWhile_append_of_pos _ _ line [] hall
  rwa [List.append_nil, List.takeWhile_nil, List.append_nil] at hrun

/-- A comment is inside its text if a newline ends it. -/
theorem inside_of_comment {line : List Char} (hline : '\n' ∉ line) (rest : List Char) :
    Inside start c (line ++ '\n' :: rest) (comment start c (line ++ '\n' :: rest)) := by
  have hcount : (comment start c (line ++ '\n' :: rest)).count = line.length + 1 := by
    unfold comment
    rw [takeWhile_line hline]
  have hstop : (comment start c (line ++ '\n' :: rest)).stop = start + width (c :: line) + 1 := by
    unfold comment
    rw [takeWhile_line hline]
  refine ⟨?_, ?_⟩
  · rw [hcount, List.length_append, List.length_cons]
    omega
  · rw [hcount, hstop, List.take_length_add_append, width_cons, width_cons, width_append]
    rfl

/-- **A piece is inside its text**, but for a comment that no newline ends: it stops one byte behind
    the text. -/
theorem inside_of_read {p : Piece} (h : (read start c cs).outcome = .ok p) :
    Inside start c cs p ∨
      c = commentMark ∧ '\n' ∉ cs ∧ p = ⟨none, cs.length + 1, start + width (c :: cs) + 1⟩ := by
  revert h
  refine read_cases (motive := fun read => (read start cs).outcome = .ok p → _) c ?_ ?_ ?_ ?_ ?_ ?_
    ?_ ?_ ?_
  · intro _ h
    cases h
    exact .inl (@inside_of_takeWhile start c cs isSpace _ rfl rfl)
  · intro hmark h
    cases h
    by_cases hline : '\n' ∈ cs
    · obtain ⟨line, rest, rfl, hfree⟩ := List.eq_append_cons_of_mem hline
      exact .inl (inside_of_comment hfree rest)
    · refine .inr ⟨hmark, hline, ?_⟩
      unfold comment
      rw [takeWhile_lastLine hline]
  · intro hmark h
    subst hmark
    exact .inl (inside_of_charLiteral h)
  · intro hmark h
    subst hmark
    exact .inl (inside_of_stringLiteral h)
  · exact fun _ h => .inl (inside_of_numeral h)
  · intro _ h
    cases h
    exact .inl (@inside_of_takeWhile start c cs continuesIdentifier _ rfl rfl)
  · intro _ h
    cases h
    exact .inl (@inside_of_takeWhile start c cs isOperator _ rfl rfl)
  · intro hpunctuation h
    cases h
    have hsize : width [c] = 1 := utf8Size_of_lt (toNat_lt_of_isPunctuation hpunctuation)
    exact .inl ⟨Nat.zero_le _, show start + 1 = start + width [c] by rw [hsize]⟩
  · intro h
    cases h

end Inside

end Piece

/-! ## 4. The pieces of a text -/

/-- The tokens of a text that begins at offset `start`. -/
def tokensFrom (start : Nat) : List Char → Stage (List Token)
  | [] => pure []
  | c :: cs => do
    let piece ← Piece.read start c cs
    let rest ← tokensFrom piece.stop (cs.drop piece.count)
    return piece.token.toList ++ rest
termination_by cs => cs.length
decreasing_by simp only [List.length_cons, List.length_drop]; omega

/-- The tokens of a text. -/
def tokensOf (source : List Char) : Stage (List Token) :=
  tokensFrom 0 source

end SourceScan
