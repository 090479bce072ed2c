import SourceScan.Token.Stream

/-!
# Proofs/Translation.lean -- what a text says does not depend on where it stands

A stage that reads a text takes the offset the text begins at. This file shows that the offset is
only carried along: behind `k` more bytes the same text gives the same result and the same reports,
each `k` bytes further on.

* `moved k`: a thing that stands `k` bytes further on -- a position, a message, a token, and what
  the stages come to. Lengths and pointers stay, since they are relative.
* `Stage.moved`: a stage whose reports and result are moved.
* `Escape.read_moved`, `Literal.body_moved`, `Piece.read_moved`: the stages, one by one.
* **`tokensFrom_moved`**: the tokens of a text that stands further on are its tokens, moved.
-/

namespace SourceScan

open Text Alphabet

/-! ## 1. Things further on -/

/-- A position `k` bytes further on. -/
def Position.moved (k : Nat) (p : Position) : Position :=
  ⟨k + p.start, p.length, p.pointer, p.pointer_le⟩

/-- A message about a position further on. -/
def Message.moved (k : Nat) (m : Message) : Message :=
  ⟨m.text, m.severity, m.position.moved k⟩

/-- A failure further on. -/
def Failure.moved (k : Nat) (h : Failure) : Failure :=
  ⟨h.fault, h.position.moved k, k + h.stop⟩

/-- An oversize escape further on. -/
def Oversize.moved (k : Nat) (w : Oversize) : Oversize :=
  ⟨w.value, w.position.moved k⟩

/-- A token further on. -/
def Token.moved (k : Nat) (t : Token) : Token :=
  ⟨t.lexeme, k + t.extent.offset, t.extent.length⟩

/-- A decoded character that is written further on. -/
def Decoded.moved (k : Nat) (d : Decoded) : Decoded :=
  ⟨d.char, k + d.offset⟩

/-- An escape further on. -/
def Escape.moved (k : Nat) (e : Escape) : Escape :=
  ⟨e.decoded, e.count, k + e.stop⟩

/-- A literal further on. -/
def Literal.moved (k : Nat) (l : Literal) : Literal :=
  ⟨l.contents.map (Decoded.moved k), l.count, k + l.stop⟩

/-- A piece further on. -/
def Piece.moved (k : Nat) (p : Piece) : Piece :=
  ⟨p.token.map (Token.moved k), p.count, k + p.stop⟩

/-! ## 2. Stages further on -/

namespace Stage

variable {α β : Type}

/-- The stage `k` bytes further on, where `move` takes its result there. -/
def moved (k : Nat) (move : α → α) (s : Stage α) : Stage α :=
  ⟨s.warnings.map (Oversize.moved k), (s.outcome.map move).mapError (Failure.moved k)⟩

theorem moved_fail (k : Nat) (move : α → α) (fault : Fault) (position : Position) (stop : Nat) :
    (fail fault position stop : Stage α).moved k move = fail fault (position.moved k) (k + stop) := rfl

/-- **Two stages are moved if each is.** -/
theorem moved_bind {k : Nat} {move : α → α} {move' : β → β} {s : Stage α} {next next' : α → Stage β}
    (h : ∀ a, next' (move a) = (next a).moved k move') :
    s.moved k move >>= next' = (s >>= next).moved k move' := by
  obtain ⟨ws, outcome⟩ := s
  cases outcome with
  | error f => rfl
  | ok a =>
    show (⟨ws.map _, .ok (move a)⟩ : Stage α) >>= next' = _
    rw [ok_bind, ok_bind, h]
    simp only [moved, List.map_append]

theorem messages_moved (k : Nat) (move : α → α) (s : Stage α) :
    (s.moved k move).messages = s.messages.map (Message.moved k) := by
  obtain ⟨ws, outcome⟩ := s
  have hwarnings : (ws.map (Oversize.moved k)).map Oversize.message =
      (ws.map Oversize.message).map (Message.moved k) := by
    rw [List.map_map, List.map_map]
    rfl
  cases outcome <;> simp only [moved, messages, hwarnings, List.map_append] <;> rfl

theorem result?_moved (k : Nat) (move : α → α) (s : Stage α) :
    (s.moved k move).result? = s.result?.map move := by
  obtain ⟨ws, outcome⟩ := s
  cases outcome <;> rfl

end Stage

/-! ## 3. Escapes and literals -/

namespace Escape

theorem numeric_moved (k start : Nat) (lead : Option Char) (radix : Radix)
    (selector behind : List Char) :
    numeric (k + start) lead radix selector behind =
      (numeric start lead radix selector behind).moved k (Escape.moved k) := by
  unfold numeric
  dsimp only
  generalize behind.takeWhile radix.isDigit = run
  have hstop : k + start + 1 + (selector.length + run.length) =
      k + (start + 1 + (selector.length + run.length)) := by omega
  have hlength : k + (start + 1 + (selector.length + run.length)) - (k + start) =
      start + 1 + (selector.length + run.length) - start := by omega
  rw [hstop, hlength]
  split
  · rfl
  split
  · rfl
  split <;> rfl

theorem read_moved (k start : Nat) (lead : Option Char) (cs : List Char) :
    read (k + start) lead cs = (read start lead cs).moved k (Escape.moved k) := by
  cases cs with
  | nil => rfl
  | cons c cs =>
    unfold read
    dsimp only
    split
    · rfl
    split
    · rfl
    split
    · exact numeric_moved k start lead .decimal [] (c :: cs)
    split
    · next radix _ => exact numeric_moved k start lead radix [c] cs
    · rw [Stage.moved_fail, ← Nat.add_assoc, ← Nat.add_assoc]
      rfl

end Escape

namespace Literal

theorem unclosed_moved (k start offset : Nat) :
    unclosed (k + start) (k + offset) = (unclosed start offset).moved k (Literal.moved k) := by
  unfold unclosed
  rw [Nat.add_sub_add_left]
  rfl

theorem body_moved (k start : Nat) (quote : Quote) (offset : Nat) (cs : List Char) :
    body quote (k + start) (k + offset) cs =
      (body quote start offset cs).moved k (Literal.moved k) := by
  fun_induction body quote start offset cs with
  | case1 offset =>
    rw [body]
    exact unclosed_moved k start offset
  | case2 offset cs =>
    rw [body, if_pos rfl]
    rfl
  | case3 offset cs hmark =>
    rw [body, if_neg hmark, if_pos rfl]
    exact unclosed_moved k start offset
  | case4 offset cs hmark hend ih =>
    rw [body, if_neg hmark, if_neg hend, if_pos rfl, Escape.read_moved]
    refine Stage.moved_bind fun e => ?_
    dsimp only [Escape.moved]
    rw [ih e]
    refine Stage.moved_bind fun l => ?_
    cases e.decoded <;> rfl
  | case5 offset c cs hmark hend hescape ih =>
    rw [body, if_neg hmark, if_neg hend, if_neg hescape, Nat.add_assoc, ih]
    exact Stage.moved_bind fun l => rfl

end Literal

/-! ## 4. Pieces and tokens -/

theorem Numeral.read_moved (k start : Nat) (setting : Setting) (text : List Char) :
    Numeral.read setting (k + start) text = (Numeral.read setting start text).moved k id := by
  unfold Numeral.read
  split
  · rfl
  · rw [Stage.moved_fail, Nat.add_assoc]
    rfl

namespace Piece

theorem ofToken_moved (k start count stop : Nat) (lexeme : Lexeme) :
    ofToken lexeme (k + start) count (k + stop) = (ofToken lexeme start count stop).moved k := by
  unfold ofToken
  rw [Nat.add_sub_add_left]
  rfl

theorem spaces_moved (k start : Nat) (c : Char) (cs : List Char) :
    spaces (k + start) c cs = (spaces start c cs).moved k := by
  unfold spaces
  dsimp only
  rw [Nat.add_assoc]
  rfl

theorem comment_moved (k start : Nat) (c : Char) (cs : List Char) :
    comment (k + start) c cs = (comment start c cs).moved k := by
  unfold comment
  dsimp only
  rw [Nat.add_assoc, Nat.add_assoc]
  rfl

theorem word_moved (k start : Nat) (accept : Char → Bool) (lexeme : String → Lexeme) (c : Char)
    (cs : List Char) :
    word accept lexeme (k + start) c cs = (word accept lexeme start c cs).moved k := by
  unfold word
  dsimp only
  rw [Nat.add_assoc, ofToken_moved]

theorem numeral_moved (k start : Nat) (c : Char) (cs : List Char) :
    numeral (k + start) c cs = (numeral start c cs).moved k (Piece.moved k) := by
  unfold numeral
  dsimp only
  rw [Numeral.read_moved]
  refine Stage.moved_bind fun value => ?_
  rw [Nat.add_assoc, ofToken_moved]
  rfl

theorem ofCharLiteral_moved (k start : Nat) (l : Literal) :
    ofCharLiteral (k + start) (l.moved k) = (ofCharLiteral start l).moved k (Piece.moved k) := by
  obtain ⟨contents, count, stop⟩ := l
  unfold ofCharLiteral
  dsimp only [Literal.moved]
  rw [Nat.add_sub_add_left]
  match contents with
  | [] => rfl
  | [d] => exact congrArg pure (ofToken_moved k start count stop (.charLiteral d.char))
  | _ :: second :: _ =>
    show Stage.fail _ (.clamped (k + start) _ (k + second.offset - (k + start))) _ = _
    rw [Nat.add_sub_add_left]
    rfl

theorem charLiteral_moved (k start : Nat) (cs : List Char) :
    charLiteral (k + start) cs = (charLiteral start cs).moved k (Piece.moved k) := by
  unfold charLiteral
  rw [Nat.add_assoc, Literal.body_moved]
  exact Stage.moved_bind (ofCharLiteral_moved k start)

theorem stringLiteral_moved (k start : Nat) (cs : List Char) :
    stringLiteral (k + start) cs = (stringLiteral start cs).moved k (Piece.moved k) := by
  unfold stringLiteral
  rw [Nat.add_assoc, Literal.body_moved]
  refine Stage.moved_bind fun l => ?_
  have hchars : (l.moved k).chars = l.chars := List.map_map ..
  rw [hchars]
  exact congrArg pure (ofToken_moved k start l.count l.stop _)

theorem read_moved (k start : Nat) (c : Char) (cs : List Char) :
    read (k + start) c cs = (read start c cs).moved k (Piece.moved k) := by
  refine read_cases (motive := fun read =>
    read (k + start) cs = (read start cs).moved k (Piece.moved k)) c ?_ ?_ ?_ ?_ ?_ ?_ ?_ ?_ ?_
  · exact fun _ => congrArg pure (spaces_moved k start c cs)
  · exact fun _ => congrArg pure (comment_moved k start c cs)
  · exact fun _ => charLiteral_moved k start cs
  · exact fun _ => stringLiteral_moved k start cs
  · exact fun _ => numeral_moved k start c cs
  · exact fun _ => congrArg pure (word_moved k start ..)
  · exact fun _ => congrArg pure (word_moved k start ..)
  · exact fun _ => congrArg pure (ofToken_moved k start 0 (start + 1) (.punctuation c))
  · rfl

end Piece

/-- **The tokens of a text that stands further on are its tokens, moved.** -/
theorem tokensFrom_moved (k start : Nat) (cs : List Char) :
    tokensFrom (k + start) cs = (tokensFrom start cs).moved k (List.map (Token.moved k)) := by
  fun_induction tokensFrom start cs with
  | case1 start =>
    rw [tokensFrom]
    rfl
  | case2 start c cs ih =>
    rw [tokensFrom, Piece.read_moved]
    refine Stage.moved_bind fun p => ?_
    dsimp only [Piece.moved]
    rw [ih p]
    refine Stage.moved_bind fun rest => ?_
    cases p.token <;> rfl

end SourceScan
