import SourceScan.Proofs.Decomposition
import SourceScan.Proofs.Translation

/-!
# Proofs/Concatenation.lean -- a text with more lines behind it

A pass looks ahead, but not over the end of a line that it has not come to. This file shows what
more lines behind a text change: nothing ahead of them, unless the text ends in the middle of a
literal or an escape, which the lines may go on with.

* `EndsOpen s limit`: the stage fails since the text ends at `limit`.
* `Escape.read_append`, `Literal.body_append`, `Piece.read_append`: a stage that does not end open
  reads the same ahead of a further line.
* `tokensFrom_append`: so do the tokens, and those of the further lines come behind them.
* **`tokenize_append_blanks`**: texts apart by a newline and blanks are cut apart from each other.
* **`tokenize_append_of_halts`**: what is wrong in a text does not depend on the lines behind it.
-/

namespace SourceScan

open Text Alphabet

/-! ## 1. Texts that end open -/

section EndsOpen

variable {α β : Type}

/-- The stage fails at offset `limit` since the text ends there. -/
def EndsOpen (s : Stage α) (limit : Nat) : Prop :=
  ∃ h, s.outcome = .error h ∧ h.fault = .unexpectedEnd ∧ h.position.target = limit

theorem endsOpen_bind {s : Stage α} {next : α → Stage β} {a : α} {limit : Nat}
    (hs : s.outcome = .ok a) (h : EndsOpen (next a) limit) : EndsOpen (s >>= next) limit := by
  obtain ⟨f, hf, hfault, htarget⟩ := h
  exact ⟨f, (Stage.outcome_bind_of_ok hs next).trans hf, hfault, htarget⟩

theorem endsOpen_bind_left {s : Stage α} {limit : Nat} (h : EndsOpen s limit)
    (next : α → Stage β) : EndsOpen (s >>= next) limit := by
  obtain ⟨⟨ws, outcome⟩, rfl⟩ : ∃ t, s = t := ⟨s, rfl⟩
  obtain ⟨f, hf, hfault, htarget⟩ := h
  obtain rfl : outcome = .error f := hf
  exact ⟨f, rfl, hfault, htarget⟩

/-- Two stages go on alike if they do so from what the first comes to. -/
theorem bind_congr_ok {s : Stage α} {next next' : α → Stage β}
    (h : ∀ a, s.outcome = .ok a → next a = next' a) : s >>= next = s >>= next' := by
  obtain ⟨ws, outcome⟩ := s
  cases outcome with
  | error f => rfl
  | ok a => rw [Stage.ok_bind, Stage.ok_bind, h a rfl]

end EndsOpen

/-! ## 2. Runs, escapes and literals -/

/-- A run of a class without the newline ends with its line. -/
theorem takeWhile_append_newline {accept : Char → Bool} (h : accept '\n' = false)
    (cs more : List Char) : (cs ++ '\n' :: more).takeWhile accept = cs.takeWhile accept := by
  have hnone : ('\n' :: more).takeWhile accept = [] :=
    List.takeWhile_cons_of_neg (Bool.eq_false_iff.mp h)
  rw [List.takeWhile_append, hnone, List.append_nil]
  split
  · next hall => exact (List.takeWhile_prefix accept).eq_of_length hall |>.symm
  · rfl

theorem Escape.numeric_append {start : Nat} {lead : Option Char} {radix : Radix}
    {selector behind : List Char} (more : List Char) :
    numeric start lead radix selector (behind ++ '\n' :: more) =
      numeric start lead radix selector behind := by
  have hnewline : radix.isDigit '\n' = false := by cases radix <;> rfl
  unfold numeric
  rw [takeWhile_append_newline hnewline]

/-- An escape of which something is there is read on its line. -/
theorem Escape.read_append {start : Nat} {lead : Option Char} {cs : List Char} (hne : cs ≠ [])
    (more : List Char) : read start lead (cs ++ '\n' :: more) = read start lead cs := by
  obtain ⟨c, cs, rfl⟩ := List.exists_cons_of_ne_nil hne
  rw [List.cons_append]
  unfold read
  dsimp only
  rw [← List.cons_append]
  simp only [numeric_append]

namespace Literal

variable {quote : Quote} {start offset : Nat} {cs : List Char}

theorem endsOpen_unclosed (h : start ≤ offset) : EndsOpen (unclosed start offset) offset := by
  refine ⟨_, rfl, rfl, ?_⟩
  show start + min (offset - start) (offset - start + 1) = offset
  omega

/-- **A literal that does not end open is read ahead of a further line.** -/
theorem body_append (hle : start ≤ offset)
    (h : ¬ EndsOpen (body quote start offset cs) (offset + width cs)) (more : List Char) :
    body quote start offset (cs ++ '\n' :: more) = body quote start offset cs := by
  fun_induction body quote start offset cs with
  | case1 offset => exact absurd (endsOpen_unclosed hle) h
  | case2 offset cs => rw [List.cons_append, body, if_pos rfl]
  | case3 offset cs hmark => rw [List.cons_append, body, if_neg hmark, if_pos rfl]
  | case4 offset cs hmark hend ih =>
    -- a backslash at the end of the text would end it open
    have hne : cs ≠ [] := by
      intro hnil
      subst hnil
      have hopen : EndsOpen (Escape.read offset (some '\\') []) (offset + width ['\\']) :=
        ⟨_, rfl, rfl, rfl⟩
      exact h (endsOpen_bind_left hopen _)
    rw [List.cons_append, body, if_neg hmark, if_neg hend, if_pos rfl, Escape.read_append hne]
    refine bind_congr_ok fun e he => ?_
    obtain ⟨hcount, hstop⟩ := Escape.stop_of_read he
    have hlimit : e.stop + width (cs.drop e.count) = offset + width ('\\' :: cs) := by
      have hsize : '\\'.utf8Size = 1 := rfl
      rw [hstop, width_cons, hsize, ← width_take_add_drop cs e.count]
      omega
    rw [List.drop_append_of_le_length hcount, ih e (by omega) fun hopen =>
      h (endsOpen_bind he (endsOpen_bind_left (hlimit ▸ hopen) _))]
  | case5 offset c cs hmark hend hescape ih =>
    have hlimit : offset + c.utf8Size + width cs = offset + width (c :: cs) := by
      rw [width_cons, Nat.add_assoc]
    rw [List.cons_append, body, if_neg hmark, if_neg hend, if_neg hescape, ih (by omega) fun hopen =>
      h (endsOpen_bind_left (hlimit ▸ hopen) _)]

end Literal

/-! ## 3. Pieces -/

namespace Piece

variable {start : Nat} {c : Char} {cs : List Char}

theorem word_append {accept : Char → Bool} {lexeme : String → Lexeme}
    (h : accept '\n' = false) (more : List Char) :
    word accept lexeme start c (cs ++ '\n' :: more) = word accept lexeme start c cs := by
  unfold word
  rw [takeWhile_append_newline h]

theorem numeral_append (more : List Char) :
    numeral start c (cs ++ '\n' :: more) = numeral start c cs := by
  unfold numeral
  rw [takeWhile_append_newline (by decide)]

/-- A literal that does not end open is read ahead of a further line. -/
theorem body_append_of_bind {quote : Quote} {next : Literal → Stage Piece}
    (h : ¬ EndsOpen (Literal.body quote start (start + 1) cs >>= next)
      (start + width (quote.mark :: cs))) (more : List Char) :
    Literal.body quote start (start + 1) (cs ++ '\n' :: more) =
      Literal.body quote start (start + 1) cs := by
  refine Literal.body_append (Nat.le_succ start) (fun hopen => h (endsOpen_bind_left ?_ next)) more
  rwa [width_cons, quote.utf8Size_mark, ← Nat.add_assoc]

theorem charLiteral_append
    (h : ¬ EndsOpen (charLiteral start cs) (start + width (Quote.char.mark :: cs)))
    (more : List Char) : charLiteral start (cs ++ '\n' :: more) = charLiteral start cs := by
  unfold charLiteral at h ⊢
  rw [body_append_of_bind h]

theorem stringLiteral_append
    (h : ¬ EndsOpen (stringLiteral start cs) (start + width (Quote.string.mark :: cs)))
    (more : List Char) : stringLiteral start (cs ++ '\n' :: more) = stringLiteral start cs := by
  unfold stringLiteral at h ⊢
  rw [body_append_of_bind h]

/-- **A piece that is no gap and does not end open is read ahead of a further line.** -/
theorem read_append (hspace : ¬ isSpace c = true) (hcomment : c ≠ commentMark)
    (h : ¬ EndsOpen (read start c cs) (start + width (c :: cs))) (more : List Char) :
    read start c (cs ++ '\n' :: more) = read start c cs := by
  revert h
  refine read_cases (motive := fun read => ¬ EndsOpen (read start cs) _ →
    read start (cs ++ '\n' :: more) = read start cs) c ?_ ?_ ?_ ?_ ?_ ?_ ?_ ?_ ?_
  · exact fun h => absurd h hspace
  · exact fun h => absurd h hcomment
  · intro hmark h
    subst hmark
    exact charLiteral_append h more
  · intro hmark h
    subst hmark
    exact stringLiteral_append h more
  · exact fun _ _ => numeral_append more
  · exact fun _ _ => congrArg pure (word_append (by decide) more)
  · exact fun _ _ => congrArg pure (word_append (by decide) more)
  · exact fun _ _ => rfl
  · exact fun _ => rfl

end Piece

/-! ## 4. Tokens -/

theorem limit_of_inside {start : Nat} {c : Char} {cs : List Char} {p : Piece}
    (h : Piece.Inside start c cs p) :
    p.stop + width (cs.drop p.count) = start + width (c :: cs) := by
  rw [h.stop_eq, width_cons, width_cons, ← width_take_add_drop cs p.count]
  omega

theorem limit_of_comment (start : Nat) (line rest : List Char) :
    start + width (commentMark :: line) + 1 + width rest =
      start + width (commentMark :: line ++ '\n' :: rest) := by
  have hsize : '\n'.utf8Size = 1 := rfl
  rw [width_append, width_cons '\n', hsize]
  omega

/-- The tokens of a text ahead of more lines: its own, and behind them those of the lines. -/
def Appends (more : List Char) (start : Nat) (cs : List Char) : Prop :=
  tokensFrom start (cs ++ '\n' :: more) = tokensFrom start cs >>= fun tokens =>
    tokensFrom (start + width cs) ('\n' :: more) >>= fun others => pure (tokens ++ others)

section Appends

variable {more : List Char} {start : Nat} {cs : List Char}

theorem appends_nil : Appends more start [] := by
  unfold Appends
  rw [tokensFrom, pure_bind]
  exact (bind_pure _).symm

theorem appends_space {c : Char} (hspace : isSpace c = true)
    (h : Appends more (start + c.utf8Size) cs) : Appends more start (c :: cs) := by
  unfold Appends at h ⊢
  rw [List.cons_append, tokensFrom_space hspace, tokensFrom_space hspace, h, width_cons,
    Nat.add_assoc]

theorem appends_comment {line : List Char} (hline : '\n' ∉ line)
    (h : Appends more (start + width (commentMark :: line) + 1) cs) :
    Appends more start (commentMark :: line ++ '\n' :: cs) := by
  unfold Appends at h ⊢
  rw [List.append_assoc, List.cons_append (a := '\n'), tokensFrom_comment hline,
    tokensFrom_comment hline, h, limit_of_comment]

/-- A comment that goes to the end of the text is ended by the further line. -/
theorem appends_openComment {line : List Char} (hline : '\n' ∉ line) :
    Appends more start (commentMark :: line) := by
  have hnewline : isSpace '\n' = true := rfl
  unfold Appends
  rw [tokensFrom_comment hline, tokensFrom_openComment hline, pure_bind,
    tokensFrom_space hnewline]
  exact (bind_pure _).symm

theorem appends_piece {c : Char} (hcomment : c ≠ commentMark)
    (hread : Piece.read start c (cs ++ '\n' :: more) = Piece.read start c cs)
    (h : ∀ p, (Piece.read start c cs).outcome = .ok p → Piece.Inside start c cs p →
      Appends more p.stop (cs.drop p.count)) : Appends more start (c :: cs) := by
  unfold Appends
  rw [List.cons_append, tokensFrom_cons, tokensFrom_cons, hread, bind_assoc]
  refine bind_congr_ok fun p hp => ?_
  have hinside : Piece.Inside start c cs p := by
    rcases Piece.inside_of_read hp with hinside | ⟨hmark, _⟩
    · exact hinside
    · exact absurd hmark hcomment
  have hrest := h p hp hinside
  unfold Appends at hrest
  rw [List.drop_append_of_le_length hinside.count_le, hrest, limit_of_inside hinside, bind_assoc,
    bind_assoc]
  refine bind_congr_ok fun tokens _ => ?_
  rw [pure_bind, bind_assoc]
  refine bind_congr_ok fun others _ => ?_
  rw [pure_bind, List.append_assoc]

end Appends

/-- **More lines change nothing ahead of them**, unless the text ends open; their tokens come
    behind. -/
theorem tokensFrom_append {start : Nat} {cs : List Char}
    (h : ¬ EndsOpen (tokensFrom start cs) (start + width cs)) (more : List Char) :
    Appends more start cs := by
  -- not on the pieces: a run of spaces may go on in the further line, and a comment may end there
  induction hlength : cs.length using Nat.strongRecOn generalizing start cs with
  | ind n ih =>
    cases cs with
    | nil => exact appends_nil
    | cons c cs =>
      subst hlength
      by_cases hspace : isSpace c = true
      · have hlimit : start + c.utf8Size + width cs = start + width (c :: cs) := by
          rw [width_cons, Nat.add_assoc]
        rw [tokensFrom_space hspace, ← hlimit] at h
        exact appends_space hspace (ih _ (Nat.lt_succ_self _) h rfl)
      by_cases hcomment : c = commentMark
      · subst hcomment
        by_cases hline : '\n' ∈ cs
        · obtain ⟨line, rest, rfl, hfree⟩ := List.eq_append_cons_of_mem hline
          rw [← List.cons_append, tokensFrom_comment hfree, ← limit_of_comment] at h
          refine appends_comment hfree (ih _ ?_ h rfl)
          rw [List.length_cons, List.length_append, List.length_cons]
          omega
        · exact appends_openComment hline
      rw [tokensFrom_cons] at h
      have hread := Piece.read_append hspace hcomment
        (fun hopen => h (endsOpen_bind_left hopen _)) more
      refine appends_piece hcomment hread fun p hp hinside => ih _ ?_ (fun hopen => ?_) rfl
      · rw [List.length_drop, List.length_cons]
        omega
      · exact h (endsOpen_bind hp (endsOpen_bind_left (limit_of_inside hinside ▸ hopen) _))

/-! ## 5. Texts -/

section Texts

variable {front : List Char}

/-- What stands behind a newline and blanks is cut apart from what stands ahead of them. -/
theorem tokensFrom_append_blanks {blanks : List Char} {tokens : List Token}
    (hblanks : Blanks blanks) (h : (tokensFrom 0 front).outcome = .ok tokens) (rest : List Char) :
    tokensFrom 0 (front ++ '\n' :: blanks ++ rest) = tokensFrom 0 front >>= fun tokens =>
      (tokensFrom 0 rest).moved (width front + width ('\n' :: blanks))
          (List.map (Token.moved (width front + width ('\n' :: blanks)))) >>= fun others =>
        pure (tokens ++ others) := by
  -- a text that is tokens does not fail at all
  have hclosed : ¬ EndsOpen (tokensFrom 0 front) (0 + width front) := by
    intro ⟨f, hf, _⟩
    rw [h] at hf
    cases hf
  have happends := tokensFrom_append hclosed (blanks ++ rest)
  have hnewline : Blanks ('\n' :: blanks) := .space rfl hblanks
  unfold Appends at happends
  rw [List.append_assoc, List.cons_append, happends, ← List.cons_append,
    tokensFrom_blanks hnewline, Nat.zero_add, ← tokensFrom_moved, Nat.add_zero]

/-- **Texts apart by a newline and blanks are cut apart from each other**: behind a text that is
    tokens, the tokens and the messages of another come behind its own, each moved by what is ahead
    of the other text. -/
theorem tokenize_append_blanks {blanks : List Char} {tokens : List Token}
    (hblanks : Blanks blanks) (h : (tokenize front .empty).2 = some tokens) (rest : List Char)
    (log : Log) :
    (tokenize (front ++ '\n' :: blanks ++ rest) log).2 =
        (tokenize rest .empty).2.map (fun others =>
          tokens ++ others.map (Token.moved (width front + width ('\n' :: blanks)))) ∧
      (tokenize (front ++ '\n' :: blanks ++ rest) log).1.messages =
        (tokenize front log).1.messages ++
          (tokenize rest .empty).1.messages.map
            (Message.moved (width front + width ('\n' :: blanks))) := by
  have houtcome := outcome_of_tokenize h
  rw [result_tokenize, result_tokenize, messages_tokenize, messages_tokenize, messages_tokenize,
    tokensFrom_append_blanks hblanks houtcome]
  refine ⟨?_, ?_⟩
  · rw [Stage.result?_bind_of_ok houtcome, Stage.result?_bind_pure, Stage.result?_moved,
      Option.map_map]
    rfl
  · rw [Stage.messages_bind_of_ok houtcome, Stage.messages_bind_pure, Stage.messages_moved,
      List.append_assoc]
    rfl

/-- The newline closes the comment in `a#`, and the warning about `'\999'` is moved. -/
theorem tokenize_append_blanks_openComment :
    Blanks [' ', '\t'] ∧
      (tokenize ['a', '#'] .empty).2 = some [⟨.identifier "a", 0, 1⟩] ∧
      (tokenize (['a', '#'] ++ '\n' :: [' ', '\t'] ++ ['\'', '\\', '9', '9', '9', '\'']) .empty).2 =
        (tokenize ['\'', '\\', '9', '9', '9', '\''] .empty).2.map (fun others =>
          [⟨.identifier "a", 0, 1⟩] ++ others.map (Token.moved 5)) ∧
      (tokenize (['a', '#'] ++ '\n' :: [' ', '\t'] ++ ['\'', '\\', '9', '9', '9', '\''])
          .empty).1.messages =
        (tokenize ['a', '#'] .empty).1.messages ++
          (tokenize ['\'', '\\', '9', '9', '9', '\''] .empty).1.messages.map (Message.moved 5) :=
  have hblanks : Blanks [' ', '\t'] := .space rfl (.space rfl .nil)
  have htokens : (tokenize ['a', '#'] .empty).2 = some [⟨.identifier "a", 0, 1⟩] := by
    decide +kernel
  ⟨hblanks, htokens, tokenize_append_blanks hblanks htokens _ _⟩

/-- **What is wrong in a text does not depend on the lines behind it**, unless the text ends in the
    middle of something. -/
theorem tokenize_append_of_halts (h : (tokenize front .empty).2 = none)
    (hclosed : ∀ m ∈ (tokenize front .empty).1.messages, m.severity = .error →
      ¬ (m.text = "unexpected EOF" ∧ m.position.target = width front)) (rest : List Char)
    (log : Log) : tokenize (front ++ '\n' :: rest) log = tokenize front log := by
  rw [result_tokenize] at h
  obtain ⟨f, hf⟩ := Stage.outcome_of_result?_none h
  have hclosed' : ¬ EndsOpen (tokensFrom 0 front) (0 + width front) := by
    intro ⟨f', hf', hfault, htarget⟩
    have hmem : f'.message ∈ (tokenize front .empty).1.messages := by
      rw [messages_tokenize]
      exact List.mem_append_right _ (Stage.message_mem_of_error hf')
    refine hclosed f'.message hmem rfl ⟨?_, ?_⟩
    · exact congrArg Fault.text hfault
    · rw [← Nat.zero_add (width front)]
      exact htarget
  have happends := tokensFrom_append hclosed' rest
  unfold Appends at happends
  rw [tokenize_eq, tokenize_eq]
  unfold tokensOf
  rw [happends, Stage.bind_of_error hf]

/-- The selector in `"\x` lacks its digits, whatever the next line begins with. -/
theorem tokenize_append_of_halts_selector :
    (tokenize ['"', '\\', 'x'] .empty).2 = none ∧
      (∀ m ∈ (tokenize ['"', '\\', 'x'] .empty).1.messages, m.severity = .error →
        ¬ (m.text = "unexpected EOF" ∧ m.position.target = width ['"', '\\', 'x'])) ∧
      tokenize (['"', '\\', 'x'] ++ '\n' :: ['4', '1', '"']) .empty =
        tokenize ['"', '\\', 'x'] .empty :=
  have hhalts : (tokenize ['"', '\\', 'x'] .empty).2 = none := by decide +kernel
  have hclosed : ∀ m ∈ (tokenize ['"', '\\', 'x'] .empty).1.messages, m.severity = .error →
      ¬ (m.text = "unexpected EOF" ∧ m.position.target = width ['"', '\\', 'x']) := by
    decide +kernel
  ⟨hhalts, hclosed, tokenize_append_of_halts hhalts hclosed _ _⟩

end Texts

end SourceScan
