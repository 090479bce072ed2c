import SourceScan.Proofs.Reading
import SourceScan.Token.Grammar

/-!
# Proofs/Decomposition.lean -- a text is cut at the ends of its lexemes

The pass cuts a text into tokens; the grammar says what a text is made of. This file shows that the
tokens are those of the grammar and that the grammar leaves no choice.

* `tokensFrom_blanks`: blanks are passed over, whatever follows them.
* `spells_of_read`, `read_of_spells`: escapes, in both directions; `spells_of_body` and
  `body_of_spells`: literals; `spells_of_piece` and `piece_of_spells`: lexemes.
* **`tokenize_eq_some_iff`**: a pass comes to a list of tokens exactly if the text divides into gaps
  and lexemes that are these tokens.
-/

namespace SourceScan

open Text Alphabet

/-! ## 1. Gaps -/

/-- The tokens of a text are those of its first piece and those of the rest. -/
theorem tokensFrom_cons (start : Nat) (c : Char) (cs : List Char) :
    tokensFrom start (c :: cs) = Piece.read start c cs >>= fun piece =>
      tokensFrom piece.stop (cs.drop piece.count) >>= fun rest =>
        pure (piece.token.toList ++ rest) := by
  rw [tokensFrom]

/-- A piece that is no token is passed over. -/
theorem tokensFrom_of_noToken {start : Nat} {c : Char} {cs : List Char} {p : Piece}
    (h : Piece.read start c cs = pure p) (htoken : p.token = none) :
    tokensFrom start (c :: cs) = tokensFrom p.stop (cs.drop p.count) := by
  rw [tokensFrom_cons, h, pure_bind, htoken]
  exact bind_pure _

/-- Spaces are passed over one at a time. -/
theorem tokensFrom_space {start : Nat} {c : Char} {cs : List Char} (h : isSpace c = true) :
    tokensFrom start (c :: cs) = tokensFrom (start + c.utf8Size) cs := by
  rw [tokensFrom_of_noToken (Piece.read_space h) rfl]
  unfold Piece.spaces
  dsimp only
  cases cs with
  | nil => rfl
  | cons d ds =>
    by_cases hd : isSpace d = true
    · rw [tokensFrom_of_noToken (Piece.read_space hd) rfl, List.takeWhile_cons_of_pos hd]
      unfold Piece.spaces
      dsimp only
      rw [List.length_cons, List.drop_succ_cons, width_cons c, Nat.add_assoc]
    · rw [List.takeWhile_cons_of_neg hd]
      rfl

/-- A comment is passed over with its newline. -/
theorem tokensFrom_comment {start : Nat} {line : List Char} (hline : '\n' ∉ line)
    (cs : List Char) :
    tokensFrom start (commentMark :: line ++ '\n' :: cs) =
      tokensFrom (start + width (commentMark :: line) + 1) cs := by
  rw [List.cons_append, tokensFrom_of_noToken Piece.read_comment rfl]
  unfold Piece.comment
  dsimp only
  rw [Piece.takeWhile_line hline, List.drop_length_add_append]
  rfl

/-- A comment that goes to the end of the text is passed over. -/
theorem tokensFrom_openComment {start : Nat} {line : List Char} (hline : '\n' ∉ line) :
    tokensFrom start (commentMark :: line) = pure [] := by
  rw [tokensFrom_of_noToken Piece.read_comment rfl]
  unfold Piece.comment
  dsimp only
  rw [Piece.takeWhile_lastLine hline, List.drop_eq_nil_of_le (Nat.le_succ _), tokensFrom]

/-- **Blanks are passed over.** -/
theorem tokensFrom_blanks {blanks : List Char} (h : Blanks blanks) (start : Nat)
    (cs : List Char) : tokensFrom start (blanks ++ cs) = tokensFrom (start + width blanks) cs := by
  induction h generalizing start with
  | nil => rfl
  | space hspace _ ih =>
    rw [List.cons_append, tokensFrom_space hspace, ih, width_cons, Nat.add_assoc]
  | @comment line blanks hline _ ih =>
    have hnewline : '\n'.utf8Size = 1 := rfl
    rw [List.append_assoc, List.cons_append (a := '\n'), tokensFrom_comment hline, ih, width_append,
      width_cons '\n', hnewline]
    congr 1
    omega

/-- Nothing but a gap is no tokens, and nothing is to be reported of it. -/
theorem tokensFrom_gap {gap : List Char} (h : Gap gap []) (start : Nat) :
    tokensFrom start gap = pure [] := by
  generalize hrest : ([] : List Char) = rest at h
  cases h with
  | blanks h =>
    have hpassed := tokensFrom_blanks h start []
    rw [List.append_nil] at hpassed
    rw [hpassed, tokensFrom]
  | openComment h hline => rw [tokensFrom_blanks h, tokensFrom_openComment hline]

/-! ## 2. Escapes -/

theorem exists_longestRun (accept : Char → Bool) (cs : List Char) :
    ∃ run rest, cs = run ++ rest ∧ cs.takeWhile accept = run ∧ LongestRun accept run rest :=
  ⟨cs.takeWhile accept, cs.dropWhile accept, List.takeWhile_append_dropWhile.symm, rfl,
    longestRun_takeWhile accept cs⟩

section Escapes

variable {start : Nat} {radix : Radix}

theorem ne_nil_of_numeric {lead : Option Char} {selector behind : List Char} {e : Escape}
    (h : (Escape.numeric start lead radix selector behind).outcome = .ok e) :
    behind.takeWhile radix.isDigit ≠ [] := by
  intro hrun
  unfold Escape.numeric at h
  dsimp only at h
  rw [hrun] at h
  cases h

/-- A numeric escape with digits comes to the character of its numeral's value, with a warning if the
    value is too great for one. -/
theorem numeric_eq_of_run {selector behind run : List Char} {n : Numeral}
    (htake : behind.takeWhile radix.isDigit = run) (hne : run ≠ [])
    (hn : Numeral.parse .escapeCode ('\\' :: (selector ++ run)) = .ok n) :
    let count := selector.length + run.length
    Escape.numeric start (some '\\') radix selector behind =
      ⟨if n.value.exceeds Escape.maxCode then [⟨n.value, .clamped start (count + 1) 0⟩] else [],
        .ok ⟨some (Escape.byteChar n.value), count, start + 1 + count⟩⟩ := by
  intro count
  have hparse : Numeral.parse .escapeCode (Escape.written (some '\\') (selector ++ run)) = .ok n := hn
  have hlength : start + 1 + count - start = count + 1 := by omega
  unfold Escape.numeric
  dsimp only
  rw [htake, if_neg (fun hempty => hne (List.isEmpty_iff.mp hempty)), hparse, hlength]
  dsimp only
  split <;> rfl

theorem numeric_of_run {selector behind run : List Char} {n : Numeral}
    (htake : behind.takeWhile radix.isDigit = run) (hne : run ≠ [])
    (hn : Numeral.parse .escapeCode ('\\' :: (selector ++ run)) = .ok n) :
    (Escape.numeric start (some '\\') radix selector behind).outcome =
      .ok ⟨some (Escape.byteChar n.value), selector.length + run.length,
        start + 1 + (selector.length + run.length)⟩ :=
  congrArg Stage.outcome (numeric_eq_of_run htake hne hn)

/-- A numeric escape takes the longest run of digits. -/
theorem run_of_numeric {selector behind : List Char} {e : Escape}
    (h : (Escape.numeric start (some '\\') radix selector behind).outcome = .ok e)
    (hn : ∀ run, run ≠ [] → (∀ c ∈ run, radix.isDigit c = true) →
      Numeral.parse .escapeCode ('\\' :: (selector ++ run)) = .ok (Numeral.ofDigits radix run)) :
    ∃ run rest, behind = run ++ rest ∧ run ≠ [] ∧ LongestRun radix.isDigit run rest ∧
      e.count = selector.length + run.length ∧
      e.decoded = some (Escape.byteChar (Numeral.ofDigits radix run).value) := by
  obtain ⟨run, rest, hbehind, htake, hrun⟩ := exists_longestRun radix.isDigit behind
  have hne : run ≠ [] := htake ▸ ne_nil_of_numeric h
  rw [numeric_of_run htake hne (hn run hne hrun.accepted)] at h
  cases h
  exact ⟨run, rest, hbehind, hne, hrun, rfl, rfl⟩

/-- An escape that is read is spelled there. -/
theorem spells_of_read {cs : List Char} {e : Escape}
    (h : (Escape.read start (some '\\') cs).outcome = .ok e) :
    Escape.Spells (cs.take e.count) (cs.drop e.count) e.decoded := by
  cases cs with
  | nil => cases h
  | cons c cs =>
    unfold Escape.read at h
    dsimp only at h
    split at h
    · next hc =>
      subst hc
      cases h
      exact .nothing cs
    split at h
    · next d hnamed =>
      cases h
      exact .named hnamed cs
    split at h
    · obtain ⟨run, rest, hbehind, hne, hrun, hcount, hdecoded⟩ :=
        run_of_numeric h fun _ => Numeral.parse_decimal
      rw [hbehind, hcount, hdecoded, List.length_nil, Nat.zero_add, List.take_left, List.drop_left]
      exact .decimal hne hrun
    split at h
    · next radix hradix =>
      obtain ⟨run, rest, hbehind, hne, hrun, hcount, hdecoded⟩ :=
        run_of_numeric h fun _ _ => Numeral.parse_selected hradix
      have hlength : [c].length + run.length = (c :: run).length := Nat.add_comm 1 run.length
      rw [hbehind, hcount, hdecoded, hlength, ← List.cons_append, List.take_left, List.drop_left]
      exact .selected hradix hne hrun
    · cases h

/-- What spells an escape is read as it. -/
theorem read_of_spells (start : Nat) {spelling rest : List Char} {decoded : Option Char}
    (h : Escape.Spells spelling rest decoded) :
    ∃ stop, (Escape.read start (some '\\') (spelling ++ rest)).outcome =
      .ok ⟨decoded, spelling.length, stop⟩ := by
  cases h with
  | nothing => exact ⟨_, rfl⟩
  | @named c d hd =>
    have hsemicolon : c ≠ ';' := by
      intro hc
      subst hc
      cases hd
    refine ⟨start + 2, ?_⟩
    rw [List.singleton_append, Escape.read, if_neg hsemicolon, hd]
    rfl
  | decimal hne hrun =>
    obtain ⟨c, cs, rfl⟩ := List.exists_cons_of_ne_nil hne
    have hdigit : c.isDigit = true := Radix.isDigit_decimal c ▸ hrun.accepted c List.mem_cons_self
    obtain ⟨hsemicolon, hnamed⟩ := Radix.of_isDigit
      (P := fun c => c ≠ ';' ∧ Escape.named? c = none) (by decide) hdigit
    rw [List.cons_append, Escape.read, if_neg hsemicolon, hnamed]
    dsimp only
    rw [if_pos hdigit, ← List.cons_append,
      numeric_of_run (longestRun_iff.mp hrun).1 hne (Numeral.parse_decimal hne hrun.accepted),
      List.length_nil, Nat.zero_add]
    exact ⟨_, rfl⟩
  | @selected c radix run rest hradix hne hrun =>
    have hplain : c ≠ ';' ∧ Escape.named? c = none ∧ ¬ c.isDigit = true := by
      unfold Radix.ofEscapeLetter? at hradix
      split at hradix <;> cases hradix <;> decide
    obtain ⟨hsemicolon, hnamed, hdigit⟩ := hplain
    have hlength : [c].length + run.length = (c :: run).length := Nat.add_comm 1 run.length
    rw [List.cons_append, Escape.read, if_neg hsemicolon, hnamed]
    dsimp only
    rw [if_neg hdigit, hradix]
    dsimp only
    rw [numeric_of_run (longestRun_iff.mp hrun).1 hne (Numeral.parse_selected hradix hrun.accepted),
      hlength]
    exact ⟨_, rfl⟩

end Escapes

/-! ## 3. Literals -/

section Literals

variable {quote : Quote} {start offset : Nat}

theorem chars_behind (l : Literal) (decoded : Option Char) (offset count : Nat) :
    (l.behind (decoded.toList.map (⟨·, offset⟩)) count).chars = decoded.toList ++ l.chars := by
  cases decoded <;> rfl

theorem head?_append_mark (text rest : List Char) (c : Char) :
    (text ++ c :: rest).head? = (text ++ [c]).head? := by
  cases text <;> rfl

/-- A literal that is read is spelled there, up to its closing mark. -/
theorem spells_of_body {cs : List Char} {l : Literal}
    (h : (Literal.body quote start offset cs).outcome = .ok l) :
    ∃ text rest, cs = text ++ quote.mark :: rest ∧ l.count = text.length + 1 ∧
      Literal.Spells quote text l.chars := by
  fun_induction Literal.body quote start offset cs generalizing l with
  | case1 => cases h
  | case2 offset cs =>
    cases h
    exact ⟨[], cs, rfl, rfl, .nil⟩
  | case3 => cases h
  | case4 offset cs hmark hend ih =>
    obtain ⟨e, hescape, h⟩ := Stage.bind_eq_ok h
    obtain ⟨l', hbody, h⟩ := Stage.bind_eq_ok h
    cases h
    obtain ⟨text, rest, htext, hcount, hspells⟩ := ih e hbody
    have hspelling := spells_of_read hescape
    rw [htext] at hspelling
    refine ⟨'\\' :: cs.take e.count ++ text, rest, ?_, ?_,
      chars_behind .. ▸ .escape (hspelling.of_head? (head?_append_mark ..)) hspells⟩
    · rw [List.append_assoc, ← htext, List.cons_append, List.take_append_drop]
    · obtain ⟨hle, _⟩ := Escape.stop_of_read hescape
      have htake : (cs.take e.count).length = e.count := List.length_take_of_le hle
      show 1 + e.count + l'.count = ('\\' :: cs.take e.count ++ text).length + 1
      rw [List.cons_append, List.length_cons, List.length_append, htake, hcount]
      omega
  | case5 offset c cs hmark hend hescape ih =>
    obtain ⟨l', hbody, h⟩ := Stage.bind_eq_ok h
    cases h
    obtain ⟨text, rest, rfl, hcount, hspells⟩ := ih hbody
    refine ⟨c :: text, rest, rfl, ?_, .char hmark hend hescape hspells⟩
    show 1 + l'.count = text.length + 1 + 1
    omega

/-- What spells a literal is read as it, whatever follows the closing mark. -/
theorem body_of_spells {text chars : List Char} (h : Literal.Spells quote text chars)
    (rest : List Char) (offset : Nat) :
    ∃ l, (Literal.body quote start offset (text ++ quote.mark :: rest)).outcome = .ok l ∧
      l.chars = chars ∧ l.count = text.length + 1 := by
  induction h generalizing offset with
  | nil =>
    refine ⟨⟨[], 1, offset + 1⟩, ?_, rfl, rfl⟩
    rw [List.nil_append, Literal.body, if_pos rfl]
    rfl
  | @char c text chars hmark hend hescape _ ih =>
    obtain ⟨l, hbody, rfl, hcount⟩ := ih (offset + c.utf8Size)
    refine ⟨l.behind [⟨c, offset⟩] 1, ?_, rfl, ?_⟩
    · rw [List.cons_append, Literal.body, if_neg hmark, if_neg hend, if_neg hescape,
        Stage.outcome_bind_of_ok hbody]
      rfl
    · show 1 + l.count = text.length + 1 + 1
      omega
  | @escape spelling text chars decoded hspelling _ ih =>
    have hmark : '\\' ≠ quote.mark := by cases quote <;> decide
    obtain ⟨stop, hread⟩ := read_of_spells offset
      (hspelling.of_head? (head?_append_mark text rest quote.mark).symm)
    obtain ⟨l, hbody, rfl, hcount⟩ := ih stop
    refine ⟨l.behind (decoded.toList.map (⟨·, offset⟩)) (1 + spelling.length), ?_,
      chars_behind .., ?_⟩
    · rw [List.append_assoc, List.cons_append, Literal.body, if_neg hmark, if_neg (by decide),
        if_pos rfl, Stage.outcome_bind_of_ok hread]
      dsimp only
      rw [List.drop_left, Stage.outcome_bind_of_ok hbody]
      rfl
    · show 1 + spelling.length + l.count = ('\\' :: spelling ++ text).length + 1
      rw [List.cons_append, List.length_cons, List.length_append]
      omega

end Literals

/-! ## 4. Lexemes -/

section Lexemes

variable {start : Nat} {c : Char} {cs : List Char}

/-- What a piece is that begins with `c` and goes on in `cs`: blanks, a comment that goes to the end
    of the text, or a lexeme. -/
inductive Piece.Spells (start : Nat) (c : Char) (cs : List Char) (p : Piece) : Prop
  | blanks (htoken : p.token = none) (h : Blanks (c :: cs.take p.count))
  | openComment (htoken : p.token = none) (hc : c = commentMark) (hline : '\n' ∉ cs)
      (hrest : cs.drop p.count = [])
  | lexeme (lexeme : Lexeme) (h : lexeme.Spells (c :: cs.take p.count) (cs.drop p.count))
      (htoken : p.token = some ⟨lexeme, start, p.stop - start⟩)

theorem blanks_of_spaces {run : List Char} (h : ∀ c ∈ run, isSpace c = true) : Blanks run := by
  induction run with
  | nil => exact .nil
  | cons c cs ih =>
    exact .space (h c List.mem_cons_self) (ih fun d hd => h d (List.mem_cons_of_mem c hd))

theorem spells_of_comment (start : Nat) (cs : List Char) :
    Piece.Spells start commentMark cs (Piece.comment start commentMark cs) := by
  by_cases hline : '\n' ∈ cs
  · obtain ⟨line, rest, rfl, hfree⟩ := List.eq_append_cons_of_mem hline
    have htake : (line ++ '\n' :: rest).take
        (Piece.comment start commentMark (line ++ '\n' :: rest)).count = line ++ ['\n'] := by
      unfold Piece.comment
      dsimp only
      rw [Piece.takeWhile_line hfree, List.take_length_add_append]
      rfl
    refine .blanks rfl ?_
    rw [htake]
    exact .comment hfree .nil
  · refine .openComment rfl rfl hline (List.drop_eq_nil_of_le ?_)
    show cs.length ≤ (cs.takeWhile (· ≠ '\n')).length + 1
    rw [Piece.takeWhile_lastLine hline]
    exact Nat.le_succ _

/-- A run is what is taken, and it is the longest. -/
theorem longestRun_take (accept : Char → Bool) (cs : List Char) :
    LongestRun accept (cs.take (cs.takeWhile accept).length)
      (cs.drop (cs.takeWhile accept).length) := by
  obtain ⟨run, rest, rfl, htake, hrun⟩ := exists_longestRun accept cs
  rwa [htake, List.take_left, List.drop_left]

/-- A literal is what is taken up to its closing mark. -/
theorem take_of_body {quote : Quote} {l : Literal}
    (h : (Literal.body quote start (start + 1) cs).outcome = .ok l) :
    ∃ text, quote.mark :: cs.take l.count = quote.mark :: text ++ [quote.mark] ∧
      Literal.Spells quote text l.chars := by
  obtain ⟨text, rest, hcs, hcount, hspells⟩ := spells_of_body h
  refine ⟨text, ?_, hspells⟩
  rw [hcs, hcount, List.take_length_add_append]
  rfl

theorem spells_of_word {accept : Char → Bool} {lexeme : String → Lexeme}
    (h : ∀ run rest, LongestRun accept run rest →
      (lexeme (String.ofList (c :: run))).Spells (c :: run) rest) :
    Piece.Spells start c cs (Piece.word accept lexeme start c cs) := by
  have hrun := List.prefix_iff_eq_take.mp (@List.takeWhile_prefix _ cs accept)
  refine .lexeme (lexeme (String.ofList (c :: cs.takeWhile accept))) ?_ rfl
  show Lexeme.Spells _ (c :: cs.take (cs.takeWhile accept).length)
    (cs.drop (cs.takeWhile accept).length)
  have hlongest := longestRun_take accept cs
  rw [← hrun] at hlongest ⊢
  exact h _ _ hlongest

/-- A numeral that is read is one that a text spells. -/
theorem parse_of_read {setting : Setting} {text : List Char} {value : Binary32}
    (h : (Numeral.read setting start text).outcome = .ok value) :
    ∃ n, Numeral.parse setting text = .ok n ∧ value = n.value := by
  unfold Numeral.read at h
  split at h
  · next n hn =>
    cases h
    exact ⟨n, hn, rfl⟩
  · cases h

theorem spells_of_numeral {p : Piece} (hdigit : c.isDigit = true)
    (h : (Piece.numeral start c cs).outcome = .ok p) : Piece.Spells start c cs p := by
  obtain ⟨value, hvalue, h⟩ := Stage.bind_eq_ok h
  obtain ⟨n, hn, rfl⟩ := parse_of_read hvalue
  have hrun := List.prefix_iff_eq_take.mp (@List.takeWhile_prefix _ cs continuesNumeral)
  cases h
  rw [hrun] at hn
  exact .lexeme (.numeral n.value) (.numeral hdigit (longestRun_take continuesNumeral cs) hn) rfl

/-- **A piece that is read is spelled there.** -/
theorem spells_of_piece {p : Piece} (h : (Piece.read start c cs).outcome = .ok p) :
    Piece.Spells start c cs p := by
  revert h
  refine Piece.read_cases (motive := fun read => (read start cs).outcome = .ok p → _) c ?_ ?_ ?_ ?_
    ?_ ?_ ?_ ?_ ?_
  · intro hspace h
    cases h
    exact .blanks rfl (.space hspace (blanks_of_spaces (longestRun_take isSpace cs).accepted))
  · intro hmark h
    subst hmark
    cases h
    exact spells_of_comment start cs
  · intro hmark h
    subst hmark
    obtain ⟨l, hbody, h⟩ := Stage.bind_eq_ok h
    obtain ⟨text, htake, hspells⟩ := take_of_body hbody
    obtain ⟨contents, count, stop⟩ := l
    unfold Piece.ofCharLiteral at h
    dsimp only at h
    split at h
    · cases h
    · next d =>
      cases h
      exact .lexeme (.charLiteral d.char) (htake ▸ .charLiteral hspells _) rfl
    · cases h
  · intro hmark h
    subst hmark
    obtain ⟨l, hbody, h⟩ := Stage.bind_eq_ok h
    obtain ⟨text, htake, hspells⟩ := take_of_body hbody
    cases h
    exact .lexeme (.stringLiteral _) (htake ▸ .stringLiteral hspells _) rfl
  · exact spells_of_numeral
  · intro hidentifier h
    cases h
    exact spells_of_word fun _ _ => .identifier hidentifier
  · intro hoperator h
    cases h
    exact spells_of_word fun _ _ => .operator hoperator
  · intro hpunctuation h
    cases h
    exact .lexeme _ (.punctuation hpunctuation cs) rfl
  · intro h
    cases h

/-- A character and the longest run behind it are read as one word. -/
theorem word_of_longestRun {accept : Char → Bool} {lexeme : String → Lexeme}
    {run rest : List Char} (hrun : LongestRun accept run rest) :
    Piece.word accept lexeme start c (run ++ rest) =
      .ofToken (lexeme (String.ofList (c :: run))) start run.length (start + width (c :: run)) := by
  unfold Piece.word
  dsimp only
  rw [(longestRun_iff.mp hrun).1]

theorem literal_of_spells {quote : Quote} {text chars : List Char}
    (h : Literal.Spells quote text chars) (start : Nat) (rest : List Char) :
    ∃ l, (Literal.body quote start (start + 1) (text ++ quote.mark :: rest)).outcome = .ok l ∧
      l.chars = chars ∧ l.count = (text ++ [quote.mark]).length ∧
      l.stop = start + width (quote.mark :: (text ++ [quote.mark])) := by
  obtain ⟨l, hbody, hchars, hcount⟩ := body_of_spells h rest (start + 1)
  have htake : (text ++ quote.mark :: rest).take l.count = text ++ [quote.mark] := by
    rw [hcount, List.take_length_add_append]
    rfl
  refine ⟨l, hbody, hchars, ?_, ?_⟩
  · rw [hcount, List.length_append, List.length_singleton]
  · have hinside : Piece.Inside start quote.mark (text ++ quote.mark :: rest)
        ⟨none, l.count, l.stop⟩ := Piece.inside_of_literal hbody rfl rfl
    rw [← htake]
    exact hinside.stop_eq

/-- **What spells a lexeme is read as it.** -/
theorem piece_of_spells {lexeme : Lexeme} {text rest : List Char}
    (h : lexeme.Spells text rest) (start : Nat) :
    ∃ c tail, text = c :: tail ∧ (Piece.read start c (tail ++ rest)).outcome =
      .ok (.ofToken lexeme start tail.length (start + width text)) := by
  cases h with
  | @identifier c run rest hc hrun =>
    refine ⟨c, run, rfl, ?_⟩
    rw [Piece.read_identifier hc, word_of_longestRun hrun]
    rfl
  | @operator c run rest hc hrun =>
    refine ⟨c, run, rfl, ?_⟩
    rw [Piece.read_operator hc, word_of_longestRun hrun]
    rfl
  | @punctuation c hc rest =>
    have hsize : width [c] = 1 := utf8Size_of_lt (toNat_lt_of_isPunctuation hc)
    refine ⟨c, [], rfl, ?_⟩
    rw [Piece.read_punctuation hc, hsize]
    rfl
  | @numeral c run rest n hc hrun hn =>
    have hvalue : (Numeral.read .literal start (c :: run)).outcome = .ok n.value := by
      rw [Numeral.read, hn]
      rfl
    refine ⟨c, run, rfl, ?_⟩
    rw [Piece.read_numeral hc]
    unfold Piece.numeral
    dsimp only
    rw [(longestRun_iff.mp hrun).1, Stage.outcome_bind_of_ok hvalue]
    rfl
  | @charLiteral text d hspells rest =>
    obtain ⟨⟨contents, count, stop⟩, hbody, hchars, hcount, hstop⟩ :=
      literal_of_spells hspells start rest
    refine ⟨Quote.char.mark, text ++ [Quote.char.mark], rfl, ?_⟩
    rw [Piece.read_charLiteral, List.append_assoc, List.singleton_append]
    unfold Piece.charLiteral
    rw [Stage.outcome_bind_of_ok hbody]
    obtain ⟨decoded, rfl, rfl⟩ := List.map_eq_singleton_iff.mp hchars
    obtain rfl : count = (text ++ [Quote.char.mark]).length := hcount
    obtain rfl : stop = start + width (Quote.char.mark :: (text ++ [Quote.char.mark])) := hstop
    rfl
  | @stringLiteral text chars hspells rest =>
    obtain ⟨l, hbody, hchars, hcount, hstop⟩ := literal_of_spells hspells start rest
    refine ⟨Quote.string.mark, text ++ [Quote.string.mark], rfl, ?_⟩
    rw [Piece.read_stringLiteral, List.append_assoc, List.singleton_append]
    unfold Piece.stringLiteral
    rw [Stage.outcome_bind_of_ok hbody, hchars, hcount, hstop]
    rfl

end Lexemes

/-! ## 5. Texts -/

section Texts

variable {source : List Char} {start : Nat}

theorem blanks_append {as bs : List Char} (ha : Blanks as) (hb : Blanks bs) :
    Blanks (as ++ bs) := by
  induction ha with
  | nil => exact hb
  | space hspace _ ih => exact .space hspace ih
  | comment hline _ ih =>
    rw [List.append_assoc, List.cons_append (a := '\n')]
    exact .comment hline ih

theorem gap_append {as gap rest : List Char} (ha : Blanks as) (h : Gap gap rest) :
    Gap (as ++ gap) rest := by
  cases h with
  | blanks h => exact .blanks (blanks_append ha h) rest
  | openComment h hline =>
    rw [← List.append_assoc]
    exact .openComment (blanks_append ha h) hline

/-- Blanks ahead of a text belong to its first gap. -/
theorem divides_blanks {blanks rest : List Char} {tokens : List Token} (hblanks : Blanks blanks)
    (h : Divides source (start + width blanks) rest tokens) :
    Divides source start (blanks ++ rest) tokens := by
  cases h with
  | last hgap => exact .last (gap_append hblanks hgap)
  | token hgap hspells hne hextent hslice h =>
    rw [← List.append_assoc, ← List.append_assoc]
    refine .token (gap_append hblanks hgap) hspells hne ?_ hslice h
    rw [hextent, width_append, Nat.add_assoc]

/-- A gap ahead of something is blanks. -/
theorem blanks_of_gap {gap rest : List Char} (h : Gap gap rest) (hne : rest ≠ []) :
    Blanks gap := by
  cases h with
  | blanks h => exact h
  | openComment => exact absurd rfl hne

/-- What is taken and what is left are the text. -/
theorem divided (c : Char) (cs : List Char) (n : Nat) : c :: cs = (c :: cs.take n) ++ cs.drop n := by
  rw [List.cons_append, List.take_append_drop]

/-- A piece that is no token belongs to the gap ahead of what is left. -/
theorem divides_piece {c : Char} {cs : List Char} {p : Piece} {tokens : List Token}
    (hp : (Piece.read start c cs).outcome = .ok p)
    (hsource : tailAt source start = ⟨0, c :: cs⟩)
    (hend : cs.drop p.count = [] → tokens = [])
    (h : Divides source p.stop (cs.drop p.count) tokens) :
    Divides source start (c :: cs) (p.token.toList ++ tokens) := by
  cases spells_of_piece hp with
  | openComment htoken hc hline hnil =>
    rw [htoken, hend hnil, hc]
    exact .last (.openComment .nil hline)
  | blanks htoken hblanks =>
    rw [htoken, divided c cs p.count]
    rcases Piece.inside_of_read hp with hinside | ⟨_, _, rfl⟩
    · exact divides_blanks hblanks (hinside.stop_eq ▸ h)
    · have hnil : cs.drop (cs.length + 1) = [] := List.drop_eq_nil_of_le (Nat.le_succ _)
      rw [hnil, hend hnil, List.append_nil]
      exact .last (.blanks hblanks [])
  | lexeme lexeme hspells htoken =>
    have hstop : p.stop = start + width (c :: cs.take p.count) := by
      rcases Piece.inside_of_read hp with hinside | ⟨_, _, rfl⟩
      · exact hinside.stop_eq
      · cases htoken
    have hslice : slice source start (start + width (c :: cs.take p.count)) =
        c :: cs.take p.count :=
      slice_of_tailAt (divided c cs p.count ▸ hsource) (List.cons_ne_nil c _)
    rw [htoken, divided c cs p.count, hstop, Nat.add_sub_cancel_left]
    have hgap : Gap [] (c :: cs.take p.count ++ cs.drop p.count) := .blanks .nil _
    exact .token hgap hspells (List.cons_ne_nil c _) rfl hslice (hstop ▸ h)

/-- A text that is read as tokens divides into them. -/
theorem divides_of_tokensFrom {cs : List Char} {tokens : List Token}
    (hsource : tailAt source start = ⟨0, cs⟩) (h : (tokensFrom start cs).outcome = .ok tokens) :
    Divides source start cs tokens := by
  fun_induction tokensFrom start cs generalizing tokens with
  | case1 start =>
    cases h
    exact .last (.blanks .nil [])
  | case2 start c cs ih =>
    obtain ⟨p, hp, h⟩ := Stage.bind_eq_ok h
    obtain ⟨rest, hrest, h⟩ := Stage.bind_eq_ok h
    cases h
    have hbehind : tailAt source p.stop = ⟨0, cs.drop p.count⟩ :=
      @tailAt_stop_of_read (Bytes.of source) _ _ _ _ hsource hp
    refine divides_piece hp hsource (fun hnil => ?_) (ih p hbehind hrest)
    rw [hnil, tokensFrom] at hrest
    cases hrest
    rfl

/-- A text that divides into tokens is read as them. -/
theorem tokensFrom_of_divides {cs : List Char} {tokens : List Token}
    (h : Divides source start cs tokens) : (tokensFrom start cs).outcome = .ok tokens := by
  induction h with
  | @last start gap hgap =>
    rw [tokensFrom_gap hgap]
    rfl
  | @token start gap text rest lexeme extent tokens hgap hspells hne hextent hslice h ih =>
    -- a lexeme follows, so the gap has no open comment
    have hblanks := blanks_of_gap hgap (List.append_ne_nil_of_left_ne_nil hne rest)
    obtain ⟨c, tail, rfl, hread⟩ := piece_of_spells hspells (start + width gap)
    subst hextent
    rw [List.append_assoc, tokensFrom_blanks hblanks, List.cons_append, tokensFrom_cons,
      Stage.outcome_bind_of_ok hread]
    dsimp only [Piece.ofToken]
    rw [List.drop_left, Stage.outcome_bind_of_ok ih, Nat.add_sub_cancel_left]
    rfl

end Texts

/-- **A pass comes to tokens exactly if the text divides into gaps and lexemes that are these
    tokens.** -/
theorem tokenize_eq_some_iff (source : List Char) (log : Log) (tokens : List Token) :
    (tokenize source log).2 = some tokens ↔ Divides source 0 source tokens := by
  constructor
  · intro h
    exact divides_of_tokensFrom (tailAt_zero source) (outcome_of_tokenize h)
  · intro h
    rw [result_tokenize]
    exact Stage.result?_of_outcome (tokensFrom_of_divides h)

end SourceScan
