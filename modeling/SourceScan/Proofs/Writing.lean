import SourceScan.Proofs.Reading

/-!
# Proofs/Writing.lean -- every text can be written as a literal

What stands in a literal is read back as it was meant if the mark, the backslash and NUL are written
by escapes. Nothing else needs one: newlines, control characters and characters beyond ASCII stand
for themselves.

* `Quote.spell`: how a character is written between quotation marks; `Quote.written`: a literal.
* `body_spell`: a character that is written in this way is the next one of the contents.
* **`tokenize_written`**: the literal that a string, or a character, is written as is one token with
  that value, and nothing is reported of it.
-/

namespace SourceScan

open Text Alphabet

/-! ## 1. Writing -/

/-- What ends the digits of a code. In a string a digit may follow, so an escape that stands for
    nothing is put behind them; in a char literal the closing mark follows. -/
def Quote.codeEnd : Quote → List Char
  | char => []
  | string => ['\\', ';']

/-- A character between quotation marks. -/
def Quote.spell (quote : Quote) (c : Char) : List Char :=
  if c = '\\' ∨ c = quote.mark then ['\\', c]
  else if c = '\x00' then ['\\', '0'] ++ quote.codeEnd
  else [c]

/-- The literal that characters are written as. -/
def Quote.written (quote : Quote) (chars : List Char) : List Char :=
  quote.mark :: (chars.flatMap quote.spell ++ [quote.mark])

/-! ## 2. Reading back -/

section Reading

variable {quote : Quote} {start offset : Nat} {c : Char} {rest : List Char}

/-- Both marks and the backslash stand for themselves behind a backslash. -/
theorem read_mark (h : c = '\\' ∨ c = quote.mark) :
    Escape.read offset (some '\\') (c :: rest) = pure ⟨some c, 1, offset + 2⟩ := by
  rcases h with rfl | rfl
  · rfl
  · cases quote <;> rfl

/-- A text that does not go on with the digits of a code. -/
def EndsCode (rest : List Char) : Prop :=
  ∀ d, rest.head? = some d → Radix.decimal.isDigit d = false

/-- The code zero is NUL, unless more digits follow it. -/
theorem read_zero (h : EndsCode rest) :
    Escape.read offset (some '\\') ('0' :: rest) = pure ⟨some '\x00', 1, offset + 2⟩ := by
  have hrun : ('0' :: rest).takeWhile Radix.decimal.isDigit = ['0'] := by
    rw [List.takeWhile_cons_of_pos (by decide)]
    cases rest with
    | nil => rfl
    | cons d ds => rw [List.takeWhile_cons_of_neg (Bool.eq_false_iff.mp (h d rfl))]
  have hparse : Numeral.parse .escapeCode (Escape.written (some '\\') ([] ++ ['0'])) =
      .ok (Numeral.ofDigits .decimal ['0']) :=
    Numeral.parse_decimal (List.cons_ne_nil '0' []) (List.forall_mem_singleton.mpr rfl)
  have hvalue : (Numeral.ofDigits .decimal ['0']).value = Binary32.zero := by decide +kernel
  have hsmall : ¬ Binary32.zero.exceeds Escape.maxCode = true := by decide +kernel
  have hchar : Escape.byteChar Binary32.zero = '\x00' := by decide +kernel
  rw [Escape.read, if_neg (by decide)]
  show (if '0'.isDigit then Escape.numeric offset (some '\\') .decimal [] ('0' :: rest) else _) = _
  rw [if_pos (by decide)]
  unfold Escape.numeric
  dsimp only
  rw [hrun, hparse, if_neg (by decide)]
  dsimp only
  rw [hvalue, if_neg hsmall, hchar]
  rfl

theorem behind_behind (l : Literal) (as bs : List Decoded) (m n : Nat) :
    (l.behind as m).behind bs n = l.behind (bs ++ as) (n + m) := by
  simp only [Literal.behind, List.append_assoc, Nat.add_assoc]

/-- What comes behind a backslash is read as an escape. -/
theorem body_escape {cs : List Char} {e : Escape}
    (h : Escape.read offset (some '\\') cs = pure e) :
    Literal.body quote start offset ('\\' :: cs) =
      Literal.body quote start e.stop (cs.drop e.count) >>= fun l =>
        pure (l.behind (e.decoded.toList.map (⟨·, offset⟩)) (1 + e.count)) := by
  have hmark : '\\' ≠ quote.mark := by cases quote <;> decide
  rw [Literal.body, if_neg hmark, if_neg (by decide), if_pos rfl, h]
  rfl

/-- What a string has behind the code of NUL stands for nothing. -/
theorem body_codeEnd (quote : Quote) (start offset : Nat) (rest : List Char) :
    Literal.body quote start offset (quote.codeEnd ++ rest) =
      Literal.body quote start (offset + width quote.codeEnd) rest >>= fun l =>
        pure (l.behind [] quote.codeEnd.length) := by
  cases quote with
  | char =>
    have hsame : (fun l : Literal => (pure (l.behind [] 0) : Stage Literal)) = pure := by
      funext l
      rw [Literal.behind, List.nil_append, Nat.zero_add]
    exact (hsame ▸ bind_pure _).symm
  | string => exact body_escape (e := ⟨none, 1, offset + 2⟩) rfl

/-- **A character as it is written is the next one of the contents**, if no digit goes on with its
    code. -/
theorem body_spell (hend : quote = .char → EndsCode rest) :
    Literal.body quote start offset (quote.spell c ++ rest) =
      Literal.body quote start (offset + width (quote.spell c)) rest >>= fun l =>
        pure (l.behind [⟨c, offset⟩] (quote.spell c).length) := by
  unfold Quote.spell
  split
  · next hmark =>
    have hsize : width ['\\', c] = 2 := by
      rcases hmark with rfl | rfl
      · rfl
      · cases quote <;> rfl
    rw [List.cons_append, List.singleton_append, body_escape (read_mark hmark), hsize]
    rfl
  split
  · next hnul =>
    subst hnul
    have hnext : EndsCode (quote.codeEnd ++ rest) := by
      cases quote with
      | char => exact hend rfl
      | string =>
        intro d hd
        cases hd
        rfl
    have hsize : width (['\\', '0'] ++ quote.codeEnd) = 2 + width quote.codeEnd :=
      width_append ['\\', '0'] quote.codeEnd
    have hlength : (['\\', '0'] ++ quote.codeEnd).length = 1 + 1 + quote.codeEnd.length :=
      List.length_append
    rw [List.append_assoc, List.cons_append, List.singleton_append, body_escape (read_zero hnext)]
    dsimp only
    rw [List.drop_one, List.tail_cons, body_codeEnd, bind_assoc, hsize, hlength, Nat.add_assoc]
    refine bind_congr fun l => ?_
    rw [pure_bind, behind_behind]
    rfl
  · next hmark hnul =>
    rw [List.singleton_append, Literal.body, if_neg fun h => hmark (.inr h), if_neg hnul,
      if_neg fun h => hmark (.inl h), width_cons, width_nil, Nat.add_zero]
    rfl

/-- **The characters of a literal are those it was written for**, and it reports nothing. -/
theorem body_written {cs : List Char} (hone : quote = .char → cs.length ≤ 1) :
    ∃ l, Literal.body quote start offset (cs.flatMap quote.spell ++ [quote.mark]) = pure l ∧
      l.chars = cs ∧ l.count = (cs.flatMap quote.spell ++ [quote.mark]).length := by
  induction cs generalizing offset with
  | nil =>
    refine ⟨⟨[], 1, offset + 1⟩, ?_, rfl, rfl⟩
    rw [List.flatMap_nil, List.nil_append, Literal.body, if_pos rfl]
  | cons c cs ih =>
    have hend : quote = .char → EndsCode (cs.flatMap quote.spell ++ [quote.mark]) := by
      rintro rfl d hd
      have hlength : cs.length + 1 ≤ 1 := hone rfl
      obtain rfl : cs = [] := List.eq_nil_of_length_eq_zero (by omega)
      cases hd
      rfl
    obtain ⟨l, hbody, rfl, hcount⟩ :=
      @ih (offset + width (quote.spell c)) fun h => Nat.le_of_succ_le (hone h)
    refine ⟨l.behind [⟨c, offset⟩] (quote.spell c).length, ?_, rfl, ?_⟩
    · rw [List.flatMap_cons, List.append_assoc, body_spell hend, hbody, pure_bind]
    · rw [List.flatMap_cons, List.append_assoc, List.length_append, ← hcount]
      rfl

end Reading

/-! ## 3. Texts -/

/-- A text that is one piece, and a token, is that token. -/
theorem tokenize_of_piece {c : Char} {cs : List Char} {t : Token} {p : Piece} {log : Log}
    (hread : Piece.read 0 c cs = pure p) (htoken : p.token = some t)
    (hcount : p.count = cs.length) :
    tokenize (c :: cs) log = (log, some [t]) := by
  have htokens : tokensOf (c :: cs) = pure [t] := by
    rw [tokensOf, tokensFrom, hread, pure_bind, hcount, List.drop_length, tokensFrom, pure_bind,
      htoken]
    rfl
  rw [tokenize_eq, htokens, Log.record]
  exact congrArg (·, some [t]) (append_nil log)

/-- The literal that characters are written as is a whole text. -/
theorem body_whole {quote : Quote} {cs : List Char} (hone : quote = .char → cs.length ≤ 1) :
    ∃ l, Literal.body quote 0 1 (cs.flatMap quote.spell ++ [quote.mark]) = pure l ∧
      l.chars = cs ∧ l.count = (cs.flatMap quote.spell ++ [quote.mark]).length ∧
      l.stop = width (quote.written cs) := by
  obtain ⟨l, hbody, hchars, hcount⟩ := @body_written quote 0 1 cs hone
  obtain ⟨-, hstop⟩ := Literal.stop_of_body (congrArg Stage.outcome hbody)
  refine ⟨l, hbody, hchars, hcount, ?_⟩
  rw [hstop, hcount, List.take_length, Quote.written, width_cons, quote.utf8Size_mark]

/-- **Every string and every character can be written as a literal**: the text that it is written as
    is one token with that value, which takes the whole text, and nothing is reported of it. -/
theorem tokenize_written (log : Log) :
    (∀ s : String, tokenize (Quote.string.written s.toList) log =
      (log, some [⟨.stringLiteral s, 0, width (Quote.string.written s.toList)⟩])) ∧
    (∀ c : Char, tokenize (Quote.char.written [c]) log =
      (log, some [⟨.charLiteral c, 0, width (Quote.char.written [c])⟩])) := by
  refine ⟨fun s => ?_, fun c => ?_⟩
  · obtain ⟨l, hbody, hchars, hcount, hstop⟩ := @body_whole .string s.toList fun h => nomatch h
    have hread : Piece.read 0 Quote.string.mark
        (s.toList.flatMap Quote.string.spell ++ [Quote.string.mark]) =
          pure (.ofToken (.stringLiteral s) 0 l.count l.stop) := by
      rw [Piece.read_stringLiteral, Piece.stringLiteral, hbody, pure_bind, hchars,
        String.ofList_toList]
    refine tokenize_of_piece hread ?_ hcount
    rw [← hstop]
    rfl
  · obtain ⟨l, hbody, hchars, hcount, hstop⟩ := @body_whole .char [c] fun _ => Nat.le_refl 1
    obtain ⟨d, hcontents, rfl⟩ := List.map_eq_singleton_iff.mp hchars
    have hread : Piece.read 0 Quote.char.mark
        ([d.char].flatMap Quote.char.spell ++ [Quote.char.mark]) =
          pure (.ofToken (.charLiteral d.char) 0 l.count l.stop) := by
      rw [Piece.read_charLiteral, Piece.charLiteral, hbody, pure_bind, Piece.ofCharLiteral,
        hcontents]
    refine tokenize_of_piece hread ?_ hcount
    rw [← hstop]
    rfl

/-- The code of NUL is kept apart from the digit behind it. -/
example : Quote.string.written ['\x00', '7', '"'] =
    ['"', '\\', '0', '\\', ';', '7', '\\', '"', '"'] := by decide

end SourceScan
