import SourceScan.Pass.Tokens
import SourceScan.Token.Stream

/-!
# Proofs/Reading.lean -- a pass reads what stands in the text

A pass goes over bytes by their offsets; a stage takes the characters of the text from the front.
This file shows that they come to the same: the same result or fault, the same messages in the same
order, and the same offset behind what has been read.

* `Follows x offset s value stop`: from `offset` on, the pass `x` runs as the stage `s` says.
* `escape_follows`, `literal_follows`: escapes and literals, **from any offset**, also from inside
  a character.
* **`tokenize_eq`**: cutting a text into tokens with a log is recording the tokens of the text.
-/

namespace SourceScan

open Text Alphabet

variable {α β γ δ : Type}

/-! ## 1. Following a stage -/

/-- What a pass comes to that does what a stage says: `value` is what becomes of the stage's result,
    and `stop` the offset behind it. -/
def Stage.runOn (s : Stage β) (value : β → α) (stop : β → Nat) (log : Log) : Option α × Progress :=
  match s.outcome with
  | .ok b => (some (value b), ⟨stop b, log.append s.messages⟩)
  | .error h => (none, ⟨h.stop, log.append s.messages⟩)

/-- From an offset on, a pass does what a stage says. -/
def Follows (x : Pass α) (offset : Nat) (s : Stage β) (value : β → α) (stop : β → Nat) : Prop :=
  ∀ log, x.run ⟨offset, log⟩ = s.runOn value stop log

theorem append_append (log : Log) (as bs : List Message) :
    (log.append as).append bs = log.append (as ++ bs) :=
  congrArg Log.mk (List.append_assoc ..)

theorem append_nil (log : Log) : log.append [] = log :=
  congrArg Log.mk (List.append_nil _)

theorem follows_pure {x : Pass α} {offset : Nat} {b : β} {value : β → α} {stop : β → Nat}
    (h : ∀ log, x.run ⟨offset, log⟩ = (some (value b), ⟨stop b, log⟩)) :
    Follows x offset (pure b) value stop := by
  intro log
  rw [h, Stage.pure_eq]
  show _ = (some (value b), (⟨stop b, log.append []⟩ : Progress))
  rw [append_nil]

theorem follows_fail {x : Pass α} {offset last : Nat} {fault : Fault} {position : Position}
    {value : β → α} {stop : β → Nat}
    (h : ∀ log, x.run ⟨offset, log⟩ = (none, ⟨last, log.fail fault.text position⟩)) :
    Follows x offset (Stage.fail fault position last) value stop :=
  h

/-- **Two parts follow two stages if each follows its own.** -/
theorem follows_bind {x : Pass α} {next : α → Pass γ} {offset : Nat} {s : Stage β}
    {t : β → Stage δ} {value : β → α} {stop : β → Nat} {value' : δ → γ} {stop' : δ → Nat}
    (hx : Follows x offset s value stop)
    (hnext : ∀ b, s.outcome = .ok b → Follows (next (value b)) (stop b) (t b) value' stop') :
    Follows (x >>= next) offset (s >>= t) value' stop' := by
  obtain ⟨ws, outcome⟩ := s
  intro log
  cases outcome with
  | error h => exact Pass.run_bind_none (hx log) next
  | ok b =>
    rw [Pass.run_bind_some (hx log), hnext b rfl, Stage.ok_bind]
    obtain ⟨ws', outcome⟩ := t b
    cases outcome <;>
      simp [Stage.runOn, Stage.messages, append_append]

/-- Only the result changes its form. -/
theorem follows_pure_bind {x : Pass α} {offset : Nat} {s : Stage β} {value : β → α}
    {stop : β → Nat} (h : Follows x offset s value stop) (f : α → γ) :
    Follows (x >>= fun a => pure (f a)) offset s (fun b => f (value b)) stop := by
  intro log
  obtain ⟨ws, outcome⟩ := s
  cases outcome with
  | error f => exact Pass.run_bind_none (h log) _
  | ok b => exact Pass.run_bind_some (h log) _

theorem follows_bind_pure {x : Pass α} {offset : Nat} {s : Stage β} {f : β → γ} {value : γ → α}
    {stop : γ → Nat} (h : Follows x offset s (fun b => value (f b)) (fun b => stop (f b))) :
    Follows x offset (s >>= fun b => pure (f b)) value stop := by
  intro log
  rw [h log]
  obtain ⟨ws, outcome⟩ := s
  cases outcome with
  | error f => rfl
  | ok b =>
    rw [Stage.ok_bind]
    simp only [Stage.runOn, Stage.messages, Stage.pure_eq, List.append_nil]

/-! ## 2. Escapes -/

theorem slice_of_escape {b : Bytes} {start : Nat} {text behind : List Char}
    (h : tailAt b.text (start + 1) = ⟨0, text ++ behind⟩) (hne : text ≠ []) :
    b.slice start (start + 1 + width text) = Escape.written (charAt? b.text start) text := by
  obtain ⟨torn, following, htail⟩ : ∃ torn following, tailAt b.text start = ⟨torn, following⟩ :=
    ⟨_, _, rfl⟩
  cases hlead : charAt? b.text start with
  | some c =>
    obtain ⟨hstart, hsize⟩ := tailAt_of_charAt? hlead h
    rw [Nat.add_assoc, ← hsize, ← width_cons]
    exact slice_of_tailAt hstart (List.cons_ne_nil c text)
  | none =>
    rw [charAt?, htail] at hlead
    cases torn with
    | succ torn => exact slice_of_torn htail (by omega)
    | zero =>
      have hnil : following = [] := List.head?_eq_none_iff.mp hlead
      rw [hnil] at htail
      have hend : tailAt b.text (start + 1) = ⟨0, []⟩ :=
        Bytes.size_le_iff.mp (Nat.le_succ_of_le (Bytes.size_le_iff.mpr htail))
      rw [hend] at h
      exact absurd (List.append_eq_nil_iff.mp (Tail.mk.inj h).2.symm).1 hne

/-- The text of a numeric escape: its lead, the selector and the digits. -/
theorem slice_of_digits {b : Bytes} {start : Nat} {radix : Radix}
    {selector behind run : List Char}
    (h : tailAt b.text (start + 1) = ⟨0, selector ++ behind⟩)
    (hselector : width selector = selector.length)
    (hrun : behind.takeWhile radix.isDigit = run) (hne : run ≠ []) :
    b.slice start (start + 1 + (selector.length + run.length)) =
      Escape.written (charAt? b.text start) (selector ++ run) := by
  have hwidth : width run = run.length :=
    hrun ▸ width_takeWhile (fun _ => Radix.toNat_lt_of_isDigit) behind
  have hdivided : tailAt b.text (start + 1) =
      ⟨0, (selector ++ run) ++ behind.dropWhile radix.isDigit⟩ := by
    rw [h, List.append_assoc, ← hrun, List.takeWhile_append_dropWhile]
  rw [← hselector, ← hwidth, ← width_append]
  exact slice_of_escape hdivided (List.append_ne_nil_of_right_ne_nil selector hne)

theorem numericEscape_follows {b : Bytes} {start offset first : Nat} {radix : Radix}
    {selector behind : List Char} (h : tailAt b.text (start + 1) = ⟨0, selector ++ behind⟩)
    (hselector : width selector = selector.length) (hfirst : first = start + 1 + selector.length) :
    Follows (Pass.numericEscape b start radix first) offset
      (Escape.numeric start (charAt? b.text start) radix selector behind) Escape.decoded
      Escape.stop := by
  obtain ⟨run, hrun⟩ : ∃ run, behind.takeWhile radix.isDigit = run := ⟨_, rfl⟩
  have hdigits : tailAt b.text first = ⟨0, behind⟩ := by
    rw [hfirst, ← hselector]
    exact tailAt_add h
  have hwidth : width run = run.length :=
    hrun ▸ width_takeWhile (fun _ => Radix.toNat_lt_of_isDigit) behind
  have hstop : b.runEnd radix.isDigit first = start + 1 + (selector.length + run.length) := by
    rw [Bytes.runEnd_eq (ReadsAscii.of_lt fun _ => Radix.toNat_lt_of_isDigit) hdigits, hrun,
      hwidth, hfirst, Nat.add_assoc]
  have hlength : start + 1 + (selector.length + run.length) - start =
      selector.length + run.length + 1 := by omega
  intro log
  unfold Pass.numericEscape Escape.numeric
  dsimp only
  rw [hstop, hrun, Pass.run_bind_some (Pass.run_moveTo ..), hlength]
  cases run with
  | nil =>
    rw [if_pos (by rw [hfirst]; rfl), if_pos List.isEmpty_nil]
    rfl
  | cons d run =>
    have hsome : start + 1 + (selector.length + (d :: run).length) ≠ first := by
      rw [hfirst, List.length_cons]
      omega
    rw [if_neg hsome, if_neg (show ¬ (d :: run).isEmpty = true from Bool.false_ne_true),
      slice_of_digits h hselector hrun (List.cons_ne_nil d run)]
    unfold Pass.numeral
    split
    · next n hparse =>
      rw [hparse, Pass.run_bind_some (Pass.run_pure ..)]
      dsimp only
      split
      · rfl
      · show _ = (some _, (⟨_, log.append []⟩ : Progress))
        rw [append_nil]
        rfl
    · next m hparse =>
      rw [hparse]
      rfl

theorem escapeOf_of_le {b : Bytes} {start : Nat} {c : Char} (h : 128 ≤ c.toNat) :
    Pass.escapeOf b start c = Pass.unknownEscape b start := by
  have hsemicolon : c ≠ ';' := by
    intro hc
    subst hc
    exact absurd h (by decide)
  have hdigit : ¬ c.isDigit = true := fun hdigit =>
    absurd (toNat_lt_of_isDigit hdigit) (Nat.not_lt.mpr h)
  unfold Pass.escapeOf
  rw [if_neg hsemicolon, Escape.named?_of_le h, Radix.ofEscapeLetter?_of_le h]
  exact if_neg hdigit

theorem unknownEscape_run {b : Bytes} {start : Nat} {c : Char} (hlt : start + 1 < b.size)
    (hc : b.charAt (start + 1) = c) (p : Progress) :
    (Pass.unknownEscape b start).run p = (none, ⟨start + 1 + c.utf8Size,
      p.log.fail (Fault.unknownEscape c).text (.clamped start (1 + c.utf8Size) 1)⟩) := by
  unfold Pass.unknownEscape
  rw [if_neg (Nat.not_le.mpr hlt), hc]
  rfl

/-- The escape of a whole character behind the backslash. -/
theorem escapeOf_follows {b : Bytes} {start : Nat} {c : Char} {cs : List Char}
    (h : tailAt b.text (start + 1) = ⟨0, c :: cs⟩) :
    Follows (Pass.escapeOf b start c) (start + 2)
      (Escape.read start (charAt? b.text start) (c :: cs)) Escape.decoded Escape.stop := by
  unfold Pass.escapeOf Escape.read
  dsimp only
  by_cases hsemicolon : c = ';'
  · rw [if_pos hsemicolon, if_pos hsemicolon]
    exact follows_pure fun _ => rfl
  rw [if_neg hsemicolon, if_neg hsemicolon]
  cases hnamed : Escape.named? c with
  | some d => exact follows_pure fun _ => rfl
  | none =>
    dsimp only
    by_cases hdigit : c.isDigit = true
    · rw [if_pos hdigit, if_pos hdigit]
      exact numericEscape_follows h rfl rfl
    rw [if_neg hdigit, if_neg hdigit]
    cases hradix : Radix.ofEscapeLetter? c with
    | some radix =>
      have hsize : width [c] = 1 := utf8Size_of_lt (Radix.toNat_lt_of_ofEscapeLetter? hradix)
      exact numericEscape_follows h hsize rfl
    | none =>
      have hlt : start + 1 < b.size := Bytes.lt_size_of_tailAt h (by simp)
      exact follows_fail fun log => unknownEscape_run hlt (Bytes.charAt_of_cons h) _

/-- **An escape is gone over as it is read, from any offset on.** -/
theorem escape_follows (b : Bytes) (start : Nat) :
    Follows (Pass.escape b) start (Escape.readAt b.text start) Escape.decoded Escape.stop := by
  have hfollow : Follows (Pass.escapeOf b start (b.peek (start + 1))) (start + 2)
      (Escape.readAt b.text start) Escape.decoded Escape.stop := by
    obtain ⟨torn, rest, htail⟩ : ∃ torn rest, tailAt b.text (start + 1) = ⟨torn, rest⟩ :=
      ⟨_, _, rfl⟩
    rw [Escape.readAt, htail]
    cases torn with
    | succ torn =>
      -- what is left of a character begins no escape
      have hlt : start + 1 < b.size := Bytes.lt_size_of_tailAt htail (by simp)
      have hchar : b.charAt (start + 1) = '\x00' := by
        rw [Bytes.charAt, charAt?, htail]
        rfl
      rw [escapeOf_of_le (Bytes.le_peek_of_torn htail)]
      exact fun log => unknownEscape_run hlt hchar _
    | zero =>
      cases rest with
      | nil =>
        have hunknown : Pass.escapeOf b start '\x00' = Pass.unknownEscape b start := rfl
        rw [Bytes.peek_of_nil htail, hunknown, Pass.unknownEscape,
          if_pos (Bytes.size_le_iff.mpr htail)]
        exact fun log => rfl
      | cons c cs =>
        have hpeek : Pass.escapeOf b start (b.peek (start + 1)) = Pass.escapeOf b start c := by
          refine Bytes.of_peek (fun c d hc hd => ?_) htail
          rw [escapeOf_of_le hc, escapeOf_of_le hd]
        rw [hpeek]
        exact escapeOf_follows htail
  intro log
  rw [← hfollow log]
  rfl

/-! ## 3. Literals -/

section Literals

variable {b : Bytes} {quote : Quote} {start offset : Nat}

theorem literalItemOf_of_le {c : Char} (h : 128 ≤ c.toNat) :
    Pass.literalItemOf b quote start offset c = (do
      let d := b.charAt offset
      Pass.moveTo (offset + d.utf8Size)
      return some [⟨d, offset⟩]) := by
  have hne : ∀ d : Char, d.toNat < 128 → c ≠ d := by
    intro d hd hc
    subst hc
    omega
  unfold Pass.literalItemOf
  rw [if_neg (hne quote.mark (by cases quote <;> decide)), if_neg (hne '\x00' (by decide)),
    if_neg (hne '\\' (by decide))]

/-- In front of a character, its byte is the item that the character is. -/
theorem literalItemOf_peek {c : Char} {cs : List Char} (h : tailAt b.text offset = ⟨0, c :: cs⟩) :
    Pass.literalItemOf b quote start offset (b.peek offset) =
      Pass.literalItemOf b quote start offset c := by
  refine Bytes.of_peek (fun c d hc hd => ?_) h
  rw [literalItemOf_of_le hc, literalItemOf_of_le hd]

theorem literalItem_run {c : Char} (h : charAt? b.text offset = some c) (log : Log) :
    (Pass.literalItems b quote start).step.run ⟨offset, log⟩ =
      (Pass.literalItemOf b quote start offset c).run ⟨offset, log⟩ := by
  obtain ⟨cs, htail⟩ := exists_tailAt_of_charAt? h
  rw [← literalItemOf_peek htail]
  rfl

/-- The closing mark is the last step. -/
theorem literalItem_mark (h : charAt? b.text offset = some quote.mark) (log : Log) :
    (Pass.literalItems b quote start).step.run ⟨offset, log⟩ =
      (some none, ⟨offset + 1, log⟩) := by
  rw [literalItem_run h, Pass.literalItemOf, if_pos rfl]
  rfl

/-- A backslash begins an escape, whichever the mark is. -/
theorem literalItem_escape (h : charAt? b.text offset = some '\\') (log : Log) :
    (Pass.literalItems b quote start).step.run ⟨offset, log⟩ = (Pass.escape b >>= fun d =>
      pure (some (d.toList.map fun c => (⟨c, offset⟩ : Decoded)))).run ⟨offset, log⟩ := by
  have hmark : '\\' ≠ quote.mark := by cases quote <;> decide
  rw [literalItem_run h, Pass.literalItemOf, if_neg hmark, if_neg (by decide), if_pos rfl]

/-- Any other character but NUL stands for itself. -/
theorem literalItem_character {c : Char} (h : charAt? b.text offset = some c)
    (hmark : c ≠ quote.mark) (hend : c ≠ '\x00') (hescape : c ≠ '\\') (log : Log) :
    (Pass.literalItems b quote start).step.run ⟨offset, log⟩ =
      (some (some [⟨c, offset⟩]), ⟨offset + c.utf8Size, log⟩) := by
  rw [literalItem_run h, Pass.literalItemOf, if_neg hmark, if_neg hend, if_neg hescape,
    Bytes.charAt_of_charAt? h]
  rfl

/-- At NUL and at the end of the text a literal breaks off. -/
theorem literalItem_unclosed (h : charAt? b.text offset = some '\x00' ∨ b.size ≤ offset)
    (log : Log) :
    (Pass.literalItems b quote start).step.run ⟨offset, log⟩ = (none, ⟨offset,
      log.fail Fault.unexpectedEnd.text (.clamped start (offset - start + 1) (offset - start))⟩) := by
  have hmark : '\x00' ≠ quote.mark := by cases quote <;> decide
  have hfatal : Pass.literalItemOf b quote start offset '\x00' = Pass.fatal .unexpectedEnd
      (.clamped start (offset - start + 1) (offset - start)) := by
    rw [Pass.literalItemOf, if_neg hmark, if_pos rfl]
  rcases h with hnull | hend
  · rw [literalItem_run hnull, hfatal]
    rfl
  · show (Pass.literalItemOf b quote start offset (b.peek offset)).run _ = _
    rw [Bytes.peek_of_size_le hend, hfatal]
    rfl

/-- **The items of a literal are its contents**, from any place between characters. -/
theorem body_follows {offset : Nat} {cs : List Char} (h : tailAt b.text offset = ⟨0, cs⟩) :
    Follows (Pass.literalItems b quote start).all offset (Literal.body quote start offset cs)
      Literal.contents Literal.stop := by
  fun_induction Literal.body quote start offset cs with
  | case1 offset =>
    exact follows_fail fun log =>
      Steps.run_all_none (literalItem_unclosed (.inr (Bytes.size_le_iff.mpr h)) log)
  | case2 offset cs =>
    exact follows_pure fun log => Steps.run_all_last (literalItem_mark (charAt?_of_tailAt h) log)
  | case3 offset cs hmark =>
    exact follows_fail fun log =>
      Steps.run_all_none (literalItem_unclosed (.inl (charAt?_of_tailAt h)) log)
  | case4 offset cs hmark hend ih =>
    have hbehind : tailAt b.text (offset + 1) = ⟨0, cs⟩ := tailAt_add_utf8Size h
    intro log
    rw [Steps.run_all_bind (literalItem_escape (charAt?_of_tailAt h) log)]
    refine follows_bind (Escape.readAt_of_tailAt h ▸ escape_follows b offset) (fun e he => ?_) log
    obtain ⟨_, hstop⟩ := Escape.stop_of_read he
    have hnext : tailAt b.text e.stop = ⟨0, cs.drop e.count⟩ := by
      rw [hstop]
      exact tailAt_add (by rw [hbehind, List.take_append_drop])
    exact follows_bind (ih e hnext) fun rest _ => follows_pure fun _ => rfl
  | case5 offset c cs hmark hend hescape ih =>
    intro log
    rw [Steps.run_all_items (literalItem_character (charAt?_of_tailAt h) hmark hend hescape log)]
    refine follows_bind (ih (tailAt_add_utf8Size h)) (fun rest _ => ?_) log
    exact follows_pure fun _ => rfl

/-- Each byte that is left of a character is an item, U+0000; then come the contents. -/
theorem torn_follows {offset torn : Nat} {rest : List Char}
    (h : tailAt b.text offset = ⟨torn, rest⟩) :
    Follows (Pass.literalItems b quote start).all offset
      (Literal.body quote start (offset + torn) rest)
      (fun l => (List.range torn).map (fun i => ⟨'\x00', offset + i⟩) ++ l.contents)
      Literal.stop := by
  induction torn generalizing offset with
  | zero => exact body_follows h
  | succ torn ih =>
    have hchar : b.charAt offset = '\x00' := by
      rw [Bytes.charAt, charAt?, h]
      rfl
    have hitem : ∀ log, (Pass.literalItems b quote start).step.run ⟨offset, log⟩ =
        (some (some [⟨'\x00', offset⟩]), ⟨offset + 1, log⟩) := by
      intro log
      show (Pass.literalItemOf b quote start offset (b.peek offset)).run _ = _
      rw [literalItemOf_of_le (Bytes.le_peek_of_torn h), hchar]
      rfl
    intro log
    have hchars : (List.range (torn + 1)).map (fun i => (⟨'\x00', offset + i⟩ : Decoded)) =
        ⟨'\x00', offset⟩ :: (List.range torn).map fun i => ⟨'\x00', offset + 1 + i⟩ := by
      rw [List.range_succ_eq_map, List.map_cons, List.map_map, Nat.add_zero]
      refine congrArg _ (List.map_congr_left fun i _ => ?_)
      rw [Function.comp_apply, Nat.succ_eq_add_one, Nat.add_assoc, Nat.add_comm 1]
    rw [Steps.run_all_items (hitem log), follows_pure_bind (ih (tailAt_add_one h)) _ log, hchars,
      Nat.add_assoc, Nat.add_comm 1]
    rfl

/-- **A literal is gone over as it is read, from any offset on.** -/
theorem literal_follows (b : Bytes) (quote : Quote) (start : Nat) :
    Follows (Pass.literal b quote) start (Literal.readAt quote b.text start) Literal.contents
      Literal.stop := by
  intro log
  rw [Literal.readAt, ← follows_bind_pure (torn_follows rfl) log]
  rfl

end Literals

/-! ## 4. Pieces -/

section Pieces

variable {b : Bytes} {start : Nat} {c : Char} {cs : List Char}

theorem numeral_follows {setting : Setting} {text : List Char} {offset : Nat}
    (h : offset = start + width text) :
    Follows (Pass.numeral setting start text) offset (Numeral.read setting start text)
      (fun value => value) (fun _ => offset) := by
  subst h
  unfold Pass.numeral Numeral.read
  cases Numeral.parse setting text with
  | ok n => exact follows_pure fun _ => rfl
  | error m => exact fun _ => rfl

/-- A token that ends inside the text ends where it ends. -/
theorem tokenOf_eq {lexeme : Lexeme} {stop count : Nat} (h : tailAt b.text start = ⟨0, c :: cs⟩)
    (hinside : Piece.Inside start c cs (.ofToken lexeme start count stop)) :
    some (Pass.tokenOf b lexeme start stop) = (Piece.ofToken lexeme start count stop).token := by
  have hstop : stop = start + width (c :: cs.take count) := hinside.stop_eq
  have hle : stop ≤ b.size := by
    have hdivided : width cs = width (cs.take count) + width (cs.drop count) := by
      rw [← width_append, List.take_append_drop]
    rw [Bytes.size_of_cons h, hstop, width_cons, width_cons]
    omega
  rw [Pass.tokenOf, Nat.min_eq_left hle]
  rfl

theorem spaces_follows (h : tailAt b.text start = ⟨0, c :: cs⟩) (hspace : isSpace c = true) :
    Follows (Pass.spaces b) start (pure (Piece.spaces start c cs)) Piece.token Piece.stop := by
  have hstop : b.runEnd isSpace start = start + width (c :: cs.takeWhile isSpace) := by
    rw [Bytes.runEnd_eq (ReadsAscii.of_lt fun _ => toNat_lt_of_isSpace) h,
      List.takeWhile_cons_of_pos hspace]
  refine follows_pure fun log => ?_
  unfold Piece.spaces
  dsimp only
  rw [← hstop]
  rfl

theorem comment_follows (h : tailAt b.text start = ⟨0, c :: cs⟩) (hmark : c = commentMark) :
    Follows (Pass.comment b) start (pure (Piece.comment start c cs)) Piece.token Piece.stop := by
  have hline : ReadsAscii fun c : Char => decide (c ≠ '\n') := by
    have hne : ∀ c : Char, 128 ≤ c.toNat → c ≠ '\n' := by
      intro c hc hnewline
      subst hnewline
      exact absurd hc (by decide)
    intro c d hc hd
    exact (decide_eq_true (hne c hc)).trans (decide_eq_true (hne d hd)).symm
  have hbehind : tailAt b.text (start + 1) = ⟨0, cs⟩ := by
    subst hmark
    exact tailAt_add_utf8Size h
  have hstop : b.runEnd (· ≠ '\n') (start + 1) + 1 =
      start + width (c :: cs.takeWhile (· ≠ '\n')) + 1 := by
    rw [Bytes.runEnd_eq hline hbehind, width_cons, hmark, Nat.add_assoc start]
    rfl
  refine follows_pure fun log => ?_
  unfold Piece.comment
  dsimp only
  rw [← hstop]
  rfl

/-- The run behind an ASCII character, and the text of both. -/
theorem word_at {accept : Char → Bool} (h : tailAt b.text start = ⟨0, c :: cs⟩)
    (hc : c.toNat < 128) (haccept : ∀ c, accept c = true → c.toNat < 128) :
    b.runEnd accept (start + 1) = start + width (c :: cs.takeWhile accept) ∧
      b.slice start (start + width (c :: cs.takeWhile accept)) = c :: cs.takeWhile accept := by
  have hbehind : tailAt b.text (start + 1) = ⟨0, cs⟩ := by
    rw [← utf8Size_of_lt hc]
    exact tailAt_add_utf8Size h
  have hdivided : tailAt b.text start =
      ⟨0, (c :: cs.takeWhile accept) ++ cs.dropWhile accept⟩ := by
    rw [h, List.cons_append, List.takeWhile_append_dropWhile]
  refine ⟨?_, slice_of_tailAt hdivided (List.cons_ne_nil c _)⟩
  rw [Bytes.runEnd_eq (ReadsAscii.of_lt haccept) hbehind, width_cons, utf8Size_of_lt hc,
    Nat.add_assoc]

theorem wordToken_follows {accept : Char → Bool} {lexeme : String → Lexeme}
    (h : tailAt b.text start = ⟨0, c :: cs⟩) (hc : c.toNat < 128)
    (haccept : ∀ c, accept c = true → c.toNat < 128) :
    Follows (Pass.wordToken b accept lexeme) start (pure (Piece.word accept lexeme start c cs))
      Piece.token Piece.stop := by
  obtain ⟨hstop, hslice⟩ := word_at h hc haccept
  have hinside : Piece.Inside start c cs (Piece.word accept lexeme start c cs) :=
    @Piece.inside_of_takeWhile start c cs accept _ rfl rfl
  refine follows_pure fun log => ?_
  unfold Pass.wordToken
  rw [Pass.run_bind_some (Pass.run_offset _)]
  dsimp only
  rw [hstop, hslice, Pass.run_bind_some (Pass.run_moveTo ..),
    tokenOf_eq h hinside]
  rfl

theorem numeralToken_follows (h : tailAt b.text start = ⟨0, c :: cs⟩) (hc : c.toNat < 128) :
    Follows (Pass.numeralToken b) start (Piece.numeral start c cs) Piece.token Piece.stop := by
  obtain ⟨hstop, hslice⟩ := word_at h hc fun _ => toNat_lt_of_continuesNumeral
  intro log
  unfold Pass.numeralToken
  rw [Pass.run_bind_some (Pass.run_offset _)]
  dsimp only
  rw [hstop, hslice, Pass.run_bind_some (Pass.run_moveTo ..)]
  refine follows_bind (numeral_follows rfl) (fun value _ => follows_pure fun _ => ?_) log
  rw [tokenOf_eq h (@Piece.inside_of_takeWhile start c cs continuesNumeral _ rfl rfl)]
  rfl

theorem literal_follows_of_cons {quote : Quote} (h : tailAt b.text start = ⟨0, quote.mark :: cs⟩) :
    Follows (Pass.literal b quote) start (Literal.body quote start (start + 1) cs)
      Literal.contents Literal.stop := by
  have hbehind : tailAt b.text (start + 1) = ⟨0, cs⟩ :=
    quote.utf8Size_mark ▸ tailAt_add_utf8Size h
  exact body_follows hbehind

theorem stringLiteral_follows (h : tailAt b.text start = ⟨0, Quote.string.mark :: cs⟩) :
    Follows (Pass.stringLiteral b) start (Piece.stringLiteral start cs) Piece.token
      Piece.stop := by
  intro log
  refine follows_bind (literal_follows_of_cons h) (fun l hl => ?_) log
  refine follows_pure fun log => ?_
  rw [Pass.run_bind_some (Pass.run_offset _), tokenOf_eq h (Piece.inside_of_literal hl rfl rfl)]
  rfl

theorem charLiteral_follows (h : tailAt b.text start = ⟨0, Quote.char.mark :: cs⟩) :
    Follows (Pass.charLiteral b) start (Piece.charLiteral start cs) Piece.token Piece.stop := by
  intro log
  refine follows_bind (literal_follows_of_cons h) (fun l hl => ?_) log
  obtain ⟨contents, count, stop⟩ := l
  intro log
  rw [Pass.run_bind_some (Pass.run_offset _)]
  unfold Piece.ofCharLiteral
  dsimp only
  match contents with
  | [] => rfl
  | [d] =>
    dsimp only
    rw [tokenOf_eq h (Piece.inside_of_literal hl rfl rfl)]
    exact follows_pure (fun _ => rfl) log
  | _ :: second :: _ => rfl

theorem pieceOf_follows (h : tailAt b.text start = ⟨0, c :: cs⟩) :
    Follows (Pass.pieceOf b c) start (Piece.read start c cs) Piece.token Piece.stop := by
  unfold Pass.pieceOf Piece.read
  by_cases hspace : isSpace c = true
  · rw [if_pos hspace, if_pos hspace]
    exact spaces_follows h hspace
  rw [if_neg hspace, if_neg hspace]
  by_cases hcomment : c = commentMark
  · rw [if_pos hcomment, if_pos hcomment]
    exact comment_follows h hcomment
  rw [if_neg hcomment, if_neg hcomment]
  by_cases hchar : c = Quote.char.mark
  · rw [if_pos hchar, if_pos hchar]
    exact charLiteral_follows (hchar ▸ h)
  rw [if_neg hchar, if_neg hchar]
  by_cases hstring : c = Quote.string.mark
  · rw [if_pos hstring, if_pos hstring]
    exact stringLiteral_follows (hstring ▸ h)
  rw [if_neg hstring, if_neg hstring]
  by_cases hdigit : c.isDigit = true
  · rw [if_pos hdigit, if_pos hdigit]
    exact numeralToken_follows h (toNat_lt_of_isDigit hdigit)
  rw [if_neg hdigit, if_neg hdigit]
  by_cases hident : startsIdentifier c = true
  · rw [if_pos hident, if_pos hident]
    exact wordToken_follows h (toNat_lt_of_startsIdentifier hident) fun _ =>
      toNat_lt_of_continuesIdentifier
  rw [if_neg hident, if_neg hident]
  by_cases hoperator : isOperator c = true
  · rw [if_pos hoperator, if_pos hoperator]
    exact wordToken_follows h (toNat_lt_of_isOperator hoperator) fun _ => toNat_lt_of_isOperator
  rw [if_neg hoperator, if_neg hoperator]
  by_cases hpunctuation : isPunctuation c = true
  · rw [if_pos hpunctuation, if_pos hpunctuation]
    refine follows_pure fun log => ?_
    rw [Piece.ofToken, Nat.add_sub_cancel_left]
    rfl
  · rw [if_neg hpunctuation, if_neg hpunctuation]
    refine follows_fail fun log => ?_
    unfold Pass.strayCharacter
    rw [Pass.run_bind_some (Pass.run_offset _)]
    dsimp only
    rw [Bytes.charAt_of_cons h]
    rfl

theorem pieceOf_of_le (h : 128 ≤ c.toNat) : Pass.pieceOf b c = Pass.strayCharacter b := by
  have hclass : ∀ {accept : Char → Bool}, (∀ c, accept c = true → c.toNat < 128) →
      ¬ accept c = true := fun hlt hacc => absurd (hlt c hacc) (Nat.not_lt.mpr h)
  have hne : ∀ d : Char, d.toNat < 128 → c ≠ d := by
    intro d hd hc
    subst hc
    omega
  unfold Pass.pieceOf
  rw [if_neg (hclass fun _ => toNat_lt_of_isSpace), if_neg (hne commentMark (by decide)),
    if_neg (hne Quote.char.mark (by decide)), if_neg (hne Quote.string.mark (by decide)),
    if_neg (hclass fun _ => toNat_lt_of_isDigit),
    if_neg (hclass fun _ => toNat_lt_of_startsIdentifier),
    if_neg (hclass fun _ => toNat_lt_of_isOperator),
    if_neg (hclass fun _ => toNat_lt_of_isPunctuation)]

/-- In front of a character, its byte is the piece that begins with it. -/
theorem pieceOf_peek (h : tailAt b.text start = ⟨0, c :: cs⟩) :
    Pass.pieceOf b (b.peek start) = Pass.pieceOf b c := by
  refine Bytes.of_peek (fun c d hc hd => ?_) h
  rw [pieceOf_of_le hc, pieceOf_of_le hd]

end Pieces

/-! ## 5. Tokens -/

/-- From an offset on, a pass comes to the result of a stage and writes what the stage reports. -/
def Records (x : Pass α) (offset : Nat) (s : Stage α) : Prop :=
  ∀ log, ∃ stop, x.run ⟨offset, log⟩ = (s.result?, ⟨stop, log.append s.messages⟩)

theorem records_bind {x : Pass α} {next : α → Pass γ} {offset : Nat} {s : Stage β}
    {t : β → Stage γ} {value : β → α} {stop : β → Nat} (hx : Follows x offset s value stop)
    (hnext : ∀ b, s.outcome = .ok b → Records (next (value b)) (stop b) (t b)) :
    Records (x >>= next) offset (s >>= t) := by
  obtain ⟨ws, outcome⟩ := s
  intro log
  cases outcome with
  | error f => exact ⟨f.stop, Pass.run_bind_none (hx log) next⟩
  | ok b =>
    obtain ⟨last, hrun⟩ := hnext b rfl (log.append ((⟨ws, .ok b⟩ : Stage β).messages))
    refine ⟨last, ?_⟩
    rw [Pass.run_bind_some (hx log), hrun, append_append, Stage.ok_bind]
    simp only [Stage.messages, Stage.result?, List.map_append, List.append_nil, List.append_assoc]

theorem records_bind_pure {x : Pass α} {offset : Nat} {s : Stage α} (h : Records x offset s)
    (f : α → β) : Records (x >>= fun a => pure (f a)) offset (s >>= fun a => pure (f a)) := by
  obtain ⟨ws, outcome⟩ := s
  intro log
  obtain ⟨last, hrun⟩ := h log
  cases outcome with
  | error f => exact ⟨last, Pass.run_bind_none hrun _⟩
  | ok a =>
    refine ⟨last, ?_⟩
    rw [Pass.run_bind_some hrun, Stage.ok_bind]
    simp only [Stage.messages, Stage.pure_eq, List.append_nil]
    rfl

/-- Behind a piece stands what it leaves. -/
theorem tailAt_stop_of_read {b : Bytes} {start : Nat} {c : Char} {cs : List Char} {p : Piece}
    (h : tailAt b.text start = ⟨0, c :: cs⟩) (hp : (Piece.read start c cs).outcome = .ok p) :
    tailAt b.text p.stop = ⟨0, cs.drop p.count⟩ := by
  rcases Piece.inside_of_read hp with hinside | ⟨_, _, rfl⟩
  · rw [hinside.stop_eq]
    exact tailAt_add (by rw [h, List.cons_append, List.take_append_drop])
  · have hend : b.size ≤ start + width (c :: cs) + 1 := by
      rw [Bytes.size_of_cons h]
      exact Nat.le_succ _
    rw [List.drop_eq_nil_of_le (Nat.le_succ _)]
    exact Bytes.size_le_iff.mp hend

/-- A step over a text is the piece that begins with the character there. -/
theorem piece_run {b : Bytes} {start : Nat} {c : Char} {cs : List Char}
    (h : tailAt b.text start = ⟨0, c :: cs⟩) (log : Log) :
    (Pass.pieces b).step.run ⟨start, log⟩ =
      (Pass.pieceOf b c >>= fun token => pure (some token.toList)).run ⟨start, log⟩ := by
  have hlt : start < b.size := Bytes.lt_size_of_tailAt h (by simp)
  show (Pass.piece b).run _ = _
  unfold Pass.piece
  rw [Pass.run_bind_some (Pass.run_offset _)]
  dsimp only
  rw [if_neg (Nat.not_le.mpr hlt), pieceOf_peek h]

/-- At the end of a text stands the last step. -/
theorem piece_run_last {b : Bytes} {start : Nat} (h : tailAt b.text start = ⟨0, []⟩) (log : Log) :
    (Pass.pieces b).step.run ⟨start, log⟩ = (some none, ⟨start, log⟩) := by
  show (Pass.piece b).run _ = _
  unfold Pass.piece
  rw [Pass.run_bind_some (Pass.run_offset _)]
  dsimp only
  rw [if_pos (Bytes.size_le_iff.mpr h)]
  rfl

theorem tokens_record {b : Bytes} {start : Nat} {cs : List Char}
    (h : tailAt b.text start = ⟨0, cs⟩) :
    Records (Pass.tokens b) start (tokensFrom start cs) := by
  fun_induction tokensFrom start cs with
  | case1 start =>
    refine fun log => ⟨start, Steps.run_all_last ((piece_run_last h log).trans ?_)⟩
    exact congrArg (fun log => (some none, (⟨start, log⟩ : Progress))) (append_nil log).symm
  | case2 start c cs ih =>
    intro log
    unfold Pass.tokens
    rw [Steps.run_all_bind (piece_run h log)]
    refine records_bind (pieceOf_follows h) (fun p hp => ?_) log
    exact records_bind_pure (ih p (tailAt_stop_of_read h hp)) _

/-- **Cutting a text into tokens with a log is recording the tokens of the text.** -/
theorem tokenize_eq (source : List Char) (log : Log) :
    tokenize source log = log.record (tokensOf source) := by
  obtain ⟨stop, hrun⟩ := tokens_record (b := Bytes.of source) (tailAt_zero source) log
  rw [tokenize, hrun]
  rfl

theorem messages_tokenize (source : List Char) (log : Log) :
    (tokenize source log).1.messages = log.messages ++ (tokensFrom 0 source).messages := by
  rw [tokenize_eq]
  rfl

theorem result_tokenize (source : List Char) (log : Log) :
    (tokenize source log).2 = (tokensFrom 0 source).result? := by
  rw [tokenize_eq]
  rfl

theorem outcome_of_tokenize {source : List Char} {tokens : List Token} {log : Log}
    (h : (tokenize source log).2 = some tokens) : (tokensFrom 0 source).outcome = .ok tokens := by
  rw [tokenize_eq] at h
  exact Stage.outcome_of_result? h

end SourceScan
