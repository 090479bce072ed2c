import Mathlib.Data.List.Forall2
import SourceScan.Proofs.Concatenation
import SourceScan.Proofs.Pointing

/-!
# Proofs/Respacing.lean -- lexemes mean the same whatever stands between them

A lexeme is read for itself: of what follows it, a pass sees at most that it does not go on with the
lexeme, and blanks never do. So the lexemes of a text may be put apart by other blanks.

* `Escape.read_congr`, `Literal.body_alone`, `Piece.read_alone`: an escape, a literal, a lexeme is
  read in front of something as it is read alone.
* `messages_of_divides`: the messages of a text are those of its lexemes, each where it stands.
* `Spacing`: blanks to put lexemes apart, with the text and the tokens this comes to.
* **`tokenize_spaced`**: the lexemes of a text, put apart by any blanks, are its tokens where they
  have been put, with the same warnings at the same places of the same literals.
-/

namespace SourceScan

open Text Alphabet

/-! ## 1. What follows an escape or a literal -/

theorem LongestRun.ahead_of_nothing {accept : Char → Bool} {run rest : List Char}
    (h : LongestRun accept run rest) : LongestRun accept run [] :=
  ⟨h.accepted, fun _ hc => nomatch hc⟩

theorem LongestRun.takeWhile_alone {accept : Char → Bool} {run rest : List Char}
    (h : LongestRun accept run rest) : (run ++ rest).takeWhile accept = run.takeWhile accept := by
  rw [(longestRun_iff.mp h).1]
  have halone := (longestRun_iff.mp h.ahead_of_nothing).1
  rw [List.append_nil] at halone
  exact halone.symm

theorem Escape.numeric_congr {start : Nat} {lead : Option Char} {radix : Radix}
    {selector behind behind' : List Char}
    (h : behind.takeWhile radix.isDigit = behind'.takeWhile radix.isDigit) :
    numeric start lead radix selector behind = numeric start lead radix selector behind' := by
  unfold numeric
  rw [h]

/-- **An escape is read alike ahead of the same character.** -/
theorem Escape.read_congr {spelling rest rest' : List Char} {decoded : Option Char}
    (h : Escape.Spells spelling rest decoded) (hhead : rest.head? = rest'.head?) (start : Nat) :
    read start (some '\\') (spelling ++ rest) = read start (some '\\') (spelling ++ rest') := by
  have hrun : ∀ {radix : Radix} {run : List Char}, LongestRun radix.isDigit run rest →
      (run ++ rest).takeWhile radix.isDigit = (run ++ rest').takeWhile radix.isDigit := by
    intro radix run hrun
    have hrun' : LongestRun radix.isDigit run rest' := ⟨hrun.accepted, hhead ▸ hrun.ends⟩
    rw [hrun.takeWhile_alone, hrun'.takeWhile_alone]
  cases h with
  | nothing => rfl
  | @named c d hd =>
    rw [List.singleton_append, List.singleton_append]
    unfold read
    dsimp only
    rw [hd]
  | @decimal run rest hne hdigits =>
    obtain ⟨c, cs, rfl⟩ := List.exists_cons_of_ne_nil hne
    have hdigit : c.isDigit = true := Radix.isDigit_decimal c ▸ hdigits.accepted c List.mem_cons_self
    have hletter : Radix.ofEscapeLetter? c = none :=
      Radix.of_isDigit (P := fun c => Radix.ofEscapeLetter? c = none) (by decide) hdigit
    rw [List.cons_append, List.cons_append]
    unfold read
    dsimp only
    rw [hletter, ← List.cons_append, ← List.cons_append, numeric_congr (hrun hdigits)]
  | @selected c radix run rest hradix hne hdigits =>
    have hdigit : ¬ c.isDigit = true := by
      unfold Radix.ofEscapeLetter? at hradix
      split at hradix <;> cases hradix <;> decide
    rw [List.cons_append, List.cons_append]
    unfold read
    dsimp only
    rw [if_neg hdigit, if_neg hdigit, hradix]
    dsimp only
    rw [numeric_congr (hrun hdigits)]

/-- **A literal is read up to its closing mark**, whatever follows. -/
theorem Literal.body_alone {quote : Quote} {text chars : List Char}
    (h : Literal.Spells quote text chars) (start offset : Nat) (rest : List Char) :
    body quote start offset (text ++ quote.mark :: rest) =
      body quote start offset (text ++ [quote.mark]) := by
  induction h generalizing offset with
  | nil => rw [List.nil_append, List.nil_append, body, body, if_pos rfl, if_pos rfl]
  | char hmark hend hescape _ ih =>
    rw [List.cons_append, List.cons_append, body, body, if_neg hmark, if_neg hmark, if_neg hend,
      if_neg hend, if_neg hescape, if_neg hescape, ih]
  | @escape spelling text chars decoded hspelling _ ih =>
    have hmark : '\\' ≠ quote.mark := by cases quote <;> decide
    have hend : '\\' ≠ '\x00' := by decide
    have hhead := head?_append_mark text rest quote.mark
    have hspelling' := hspelling.of_head? hhead.symm
    rw [List.append_assoc, List.append_assoc, List.cons_append, List.cons_append, body, body,
      if_neg hmark, if_neg hmark, if_neg hend, if_neg hend, if_pos rfl, if_pos rfl,
      Escape.read_congr hspelling' hhead]
    refine bind_congr_ok fun e he => ?_
    obtain ⟨stop, hread⟩ := read_of_spells offset hspelling
    rw [hread] at he
    cases he
    dsimp only
    rw [List.drop_left, List.drop_left, ih]

/-! ## 2. What follows a lexeme -/

section Lexemes

variable {lexeme : Lexeme} {text rest : List Char}

/-- A text that goes on with no lexeme: it is empty, or begins with a space or a comment. -/
def StartsBlank (rest : List Char) : Prop :=
  ∀ c, rest.head? = some c → isSpace c = true ∨ c = commentMark

theorem startsBlank_nil : StartsBlank [] :=
  fun _ hc => nomatch hc

theorem startsBlank_of_blanks {blanks : List Char} (h : Blanks blanks) : StartsBlank blanks := by
  cases h with
  | nil => exact startsBlank_nil
  | space hspace _ =>
    intro c hc
    exact .inl (Option.some.inj hc ▸ hspace)
  | comment hline _ =>
    intro c hc
    exact .inr (Option.some.inj hc).symm

/-- A run of a class without blanks goes on in no blanks. -/
theorem LongestRun.ahead_of_blank {accept : Char → Bool} {run : List Char}
    (h : LongestRun accept run rest) (haccept : ∀ c, isSpace c = true → accept c = false)
    (hmark : accept commentMark = false) {rest' : List Char} (hblank : StartsBlank rest') :
    LongestRun accept run rest' := by
  refine ⟨h.accepted, fun c hc => ?_⟩
  rcases hblank c hc with hspace | rfl
  · exact haccept c hspace
  · exact hmark

/-- A class without the six spaces. -/
theorem eq_false_of_isSpace {accept : Char → Bool}
    (h : [' ', '\t', '\n', '\r', '\x0c', '\x0b'].all (fun c => !accept c) = true) (c : Char)
    (hc : isSpace c = true) : accept c = false := by
  have haccept := List.all_eq_true.mp h c (List.contains_iff_mem.mp hc)
  rwa [Bool.not_eq_true'] at haccept

/-- **A lexeme is the same lexeme in front of blanks.** -/
theorem Lexeme.Spells.ahead_of_blank (h : lexeme.Spells text rest) {rest' : List Char}
    (hblank : StartsBlank rest') : lexeme.Spells text rest' := by
  cases h with
  | identifier hc hrun =>
    exact .identifier hc (hrun.ahead_of_blank (eq_false_of_isSpace (by decide)) (by decide) hblank)
  | operator hc hrun =>
    exact .operator hc (hrun.ahead_of_blank (eq_false_of_isSpace (by decide)) (by decide) hblank)
  | punctuation hc => exact .punctuation hc rest'
  | numeral hc hrun hn =>
    exact .numeral hc (hrun.ahead_of_blank (eq_false_of_isSpace (by decide)) (by decide) hblank) hn
  | charLiteral hspells => exact .charLiteral hspells rest'
  | stringLiteral hspells => exact .stringLiteral hspells rest'

/-- **A lexeme is read in front of something as it is read alone.** -/
theorem Piece.read_alone {c : Char} {tail : List Char} (h : lexeme.Spells (c :: tail) rest)
    (start : Nat) : read start c (tail ++ rest) = read start c tail := by
  generalize htext : c :: tail = text at h
  cases h with
  | identifier hc hrun =>
    cases htext
    rw [read_identifier hc, read_identifier hc]
    unfold word
    rw [hrun.takeWhile_alone]
  | operator hc hrun =>
    cases htext
    rw [read_operator hc, read_operator hc]
    unfold word
    rw [hrun.takeWhile_alone]
  | punctuation hc =>
    cases htext
    rw [read_punctuation hc, read_punctuation hc]
  | numeral hc hrun hn =>
    cases htext
    rw [read_numeral hc, read_numeral hc]
    unfold numeral
    rw [hrun.takeWhile_alone]
  | charLiteral hspells =>
    rw [List.cons_append] at htext
    cases htext
    rw [read_charLiteral, read_charLiteral, List.append_assoc, List.singleton_append]
    unfold charLiteral
    rw [Literal.body_alone hspells]
  | stringLiteral hspells =>
    rw [List.cons_append] at htext
    cases htext
    rw [read_stringLiteral, read_stringLiteral, List.append_assoc, List.singleton_append]
    unfold stringLiteral
    rw [Literal.body_alone hspells]

/-- A char or a string literal. -/
def Lexeme.IsQuoted : Lexeme → Prop
  | charLiteral _ | stringLiteral _ => True
  | _ => False

/-- What warns is a literal. -/
theorem messages_of_spells {c : Char} {tail : List Char} (h : lexeme.Spells (c :: tail) [])
    (hquoted : ¬ lexeme.IsQuoted) (start : Nat) : (Piece.read start c tail).messages = [] := by
  generalize htext : c :: tail = text at h
  cases h with
  | identifier hc hrun =>
    cases htext
    rw [Piece.read_identifier hc]
    rfl
  | operator hc hrun =>
    cases htext
    rw [Piece.read_operator hc]
    rfl
  | punctuation hc =>
    cases htext
    rw [Piece.read_punctuation hc]
    rfl
  | numeral hc hrun hn =>
    cases htext
    have htake := (longestRun_iff.mp hrun).1
    rw [List.append_nil] at htake
    rw [Piece.read_numeral hc]
    unfold Piece.numeral
    dsimp only
    rw [htake, Stage.messages_bind_pure, Numeral.read, hn]
    rfl
  | charLiteral => exact absurd trivial hquoted
  | stringLiteral => exact absurd trivial hquoted

end Lexemes

/-! ## 3. The messages of a text are those of its lexemes -/

/-- What a text has to report, as a text of its own. -/
def reported (text : List Char) : List Message :=
  (tokensFrom 0 text).messages

/-- The text that a token takes. -/
def Token.text (source : List Char) (t : Token) : List Char :=
  slice source t.extent.offset (t.extent.offset + t.extent.length)

section Divides

variable {source cs text rest : List Char} {start : Nat} {lexeme : Lexeme} {tokens : List Token}

/-- A lexeme alone has to report what its piece does. -/
theorem reported_of_spells {c : Char} {tail : List Char} (h : lexeme.Spells (c :: tail) rest) :
    reported (c :: tail) = (Piece.read 0 c tail).messages := by
  obtain ⟨d, tail', htext, hread⟩ := piece_of_spells (h.ahead_of_blank startsBlank_nil) 0
  cases htext
  rw [List.append_nil] at hread
  have hnil : (tokensFrom (0 + width (c :: tail)) []).messages = [] := by
    rw [tokensFrom]
    rfl
  unfold reported
  rw [tokensFrom_cons, Stage.messages_bind_of_ok hread]
  dsimp only [Piece.ofToken]
  rw [List.drop_length, Stage.messages_bind_pure, hnil, List.append_nil]

/-- **What is to be reported of a lexeme in a text is what is to be reported of it alone**, moved to
    where it stands. -/
theorem messages_read {c : Char} {tail : List Char} (h : lexeme.Spells (c :: tail) rest)
    (start : Nat) : (Piece.read start c (tail ++ rest)).messages =
      (reported (c :: tail)).map (Message.moved start) := by
  rw [reported_of_spells h, ← Stage.messages_moved, ← Piece.read_moved, Piece.read_alone h,
    Nat.add_zero]

/-- **The messages of a text are those of its lexemes**, each moved to where the lexeme stands. -/
theorem messages_of_divides (h : Divides source start cs tokens) :
    (tokensFrom start cs).messages = tokens.flatMap fun t =>
      (reported (t.text source)).map (Message.moved t.extent.offset) := by
  induction h with
  | @last start gap hgap =>
    rw [tokensFrom_gap hgap]
    rfl
  | @token start gap text rest lexeme extent tokens hgap hspells hne hextent hslice h ih =>
    have hblanks := blanks_of_gap hgap (List.append_ne_nil_of_left_ne_nil hne rest)
    have htext : Token.text source ⟨lexeme, extent⟩ = text := hslice
    rw [List.flatMap_cons, htext, ← ih]
    subst hextent
    obtain ⟨c, tail, rfl, hread⟩ := piece_of_spells hspells (start + width gap)
    rw [List.append_assoc, tokensFrom_blanks hblanks, List.cons_append, tokensFrom_cons,
      Stage.messages_bind_of_ok hread, messages_read hspells]
    dsimp only [Piece.ofToken]
    rw [List.drop_left, Stage.messages_bind_pure]

/-- What the lexemes of a text are: each is spelled by its text, also when it stands alone. -/
theorem spells_of_divides (h : Divides source start cs tokens) {t : Token} (ht : t ∈ tokens) :
    t.lexeme.Spells (t.text source) [] ∧ t.text source ≠ [] ∧
      t.extent.length = width (t.text source) := by
  induction h with
  | last => exact absurd ht List.not_mem_nil
  | @token start gap text rest lexeme extent tokens hgap hspells hne hextent hslice h ih =>
    rcases List.mem_cons.mp ht with rfl | ht
    · have htext : Token.text source ⟨lexeme, extent⟩ = text := hslice
      rw [htext]
      exact ⟨hspells.ahead_of_blank startsBlank_nil, hne, congrArg Extent.length hextent⟩
    · exact ih ht

end Divides

/-! ## 4. Lexemes put apart -/

/-- Blanks to put lexemes apart: `ahead i` stands ahead of the `i`th of them, `behind` behind the
    last. Only ahead of the first and behind the last there may be nothing. -/
structure Spacing where
  ahead : Nat → List Char
  behind : List Char
  blanks_ahead : ∀ i, Blanks (ahead i)
  blanks_behind : Blanks behind
  apart : ∀ i, ahead (i + 1) ≠ []

namespace Spacing

/-- The blanks from the second lexeme on. -/
def tail (s : Spacing) : Spacing where
  ahead i := s.ahead (i + 1)
  behind := s.behind
  blanks_ahead i := s.blanks_ahead (i + 1)
  blanks_behind := s.blanks_behind
  apart i := s.apart (i + 1)

/-- The lexemes of tokens of a text, put apart. -/
def text (s : Spacing) (source : List Char) : List Token → List Char
  | [] => s.behind
  | t :: ts => s.ahead 0 ++ t.text source ++ s.tail.text source ts

/-- The tokens where their lexemes have been put, the text beginning at offset `start`. -/
def tokens (s : Spacing) (start : Nat) : List Token → List Token
  | [] => []
  | t :: ts =>
    let offset := start + width (s.ahead 0)
    ⟨t.lexeme, offset, t.extent.length⟩ :: s.tail.tokens (offset + t.extent.length) ts

/-- A newline behind each lexeme but the last. -/
def newlines : Spacing where
  ahead i := if i = 0 then [] else ['\n']
  behind := []
  blanks_ahead i := by
    split
    · exact .nil
    · exact .space rfl .nil
  blanks_behind := .nil
  apart _ := List.cons_ne_nil _ _

/-- Behind a lexeme, blanks go on. -/
theorem startsBlank_tail_text (s : Spacing) (source : List Char) (ts : List Token) :
    StartsBlank (s.tail.text source ts) := by
  cases ts with
  | nil => exact startsBlank_of_blanks s.blanks_behind
  | cons t ts =>
    obtain ⟨c, blanks, hahead⟩ := List.exists_cons_of_ne_nil (s.apart 0)
    have hblanks : StartsBlank (c :: blanks) := hahead ▸ startsBlank_of_blanks (s.blanks_ahead 1)
    intro d hd
    refine hblanks d ?_
    rw [← hd]
    show _ = (s.ahead 1 ++ t.text source ++ s.tail.tail.text source ts).head?
    rw [hahead]
    rfl

variable {source cs target : List Char} {start : Nat} {ts : List Token}

/-- A token of one text and a token of another that are the same lexeme, spelled alike. -/
structure SameLexeme (source target : List Char) (t t' : Token) : Prop where
  lexeme_eq : t'.lexeme = t.lexeme
  length_eq : t'.extent.length = t.extent.length
  text_eq : t'.text target = t.text source

/-- **Lexemes put apart divide the text they make**, into the tokens where they have been put. -/
theorem divides (h : Divides source start cs ts) (s : Spacing) {front : List Char}
    (htarget : target = front ++ s.text source ts) :
    Divides target (width front) (s.text source ts) (s.tokens (width front) ts) ∧
      List.Forall₂ (SameLexeme source target) ts (s.tokens (width front) ts) := by
  induction h generalizing s front with
  | last => exact ⟨.last (.blanks s.blanks_behind []), .nil⟩
  | @token start gap text rest lexeme extent tokens hgap hspells hne hextent hslice h ih =>
    have htext : Token.text source ⟨lexeme, extent⟩ = text := hslice
    have hlength : extent.length = width text := congrArg Extent.length hextent
    have hspaced : s.text source (⟨lexeme, extent⟩ :: tokens) =
        s.ahead 0 ++ text ++ s.tail.text source tokens := by
      rw [Spacing.text, htext]
    rw [hspaced] at htarget ⊢
    have hfront : target = (front ++ s.ahead 0 ++ text) ++ s.tail.text source tokens := by
      rw [htarget, List.append_assoc, List.append_assoc, List.append_assoc]
    have hstart : tailAt target (width front + width (s.ahead 0)) =
        ⟨0, text ++ s.tail.text source tokens⟩ := by
      rw [hfront, List.append_assoc, ← width_append, tailAt_width_append]
    have hplaced := slice_of_tailAt hstart hne
    obtain ⟨hrest, hsame⟩ := ih s.tail hfront
    rw [width_append, width_append] at hrest hsame
    unfold Spacing.tokens
    dsimp only
    rw [hlength]
    refine ⟨.token (.blanks (s.blanks_ahead 0) _)
      (hspells.ahead_of_blank (s.startsBlank_tail_text source tokens)) hne rfl hplaced hrest, ?_⟩
    exact .cons ⟨rfl, hlength.symm, hplaced.trans htext.symm⟩ hsame

end Spacing

/-! ## 5. Where the warnings come to stand -/

/-- A position inside a stretch. -/
def Extent.Covers (e : Extent) (p : Position) : Prop :=
  e.offset ≤ p.start ∧ p.stop ≤ e.offset + e.length

/-- A message about something in `t`, and the same about `t'`: at the same place of either. -/
structure Message.CarriedOver (t t' : Token) (m m' : Message) : Prop where
  text_eq : m'.text = m.text
  severity_eq : m'.severity = m.severity
  length_eq : m'.position.length = m.position.length
  pointer_eq : m'.position.pointer = m.position.pointer
  covers : t.extent.Covers m.position
  covers' : t'.extent.Covers m'.position
  start_eq : m'.position.start - t'.extent.offset = m.position.start - t.extent.offset

section Warnings

variable {source target text : List Char} {t t' : Token}

theorem covers_moved {m : Message} {k length : Nat} (h : m.position.stop ≤ length) :
    Extent.Covers ⟨k, length⟩ (m.moved k).position := by
  have hstop : m.position.start + m.position.length ≤ length := h
  refine ⟨Nat.le_add_right .., ?_⟩
  show k + m.position.start + m.position.length ≤ k + length
  omega

/-- What is reported of a lexeme is inside it. -/
theorem stop_le_of_mem_reported {lexeme : Lexeme} {m : Message} (h : lexeme.Spells text [])
    (hm : m ∈ reported text) : m.position.stop ≤ width text := by
  obtain ⟨c, tail, rfl, hread⟩ := piece_of_spells h 0
  rw [List.append_nil] at hread
  have hwarning : m.severity = .warning := by
    rw [reported_of_spells h] at hm
    exact Stage.severity_of_ok hread hm
  exact stop_le_of_pointsAt (Reports.tokensFrom (List.nil_append _).symm m hm) hwarning

/-- The messages of two tokens that are the same lexeme are the same, each at its place. -/
theorem carriedOver_of_sameLexeme (hspells : t.lexeme.Spells (t.text source) [])
    (hne : t.text source ≠ []) (hlength : t.extent.length = width (t.text source))
    (h : Spacing.SameLexeme source target t t') :
    List.Forall₂ (fun m m' => t.lexeme.IsQuoted ∧ Message.CarriedOver t t' m m')
      ((reported (t.text source)).map (Message.moved t.extent.offset))
      ((reported (t'.text target)).map (Message.moved t'.extent.offset)) := by
  rw [h.text_eq, List.forall₂_map_left_iff, List.forall₂_map_right_iff, List.forall₂_same]
  intro m hm
  have hstop := stop_le_of_mem_reported hspells hm
  refine ⟨?_, {
    text_eq := rfl
    severity_eq := rfl
    length_eq := rfl
    pointer_eq := rfl
    covers := covers_moved (hlength ▸ hstop)
    covers' := covers_moved (h.length_eq.trans hlength ▸ hstop)
    start_eq := ?_ }⟩
  · refine Classical.byContradiction fun hquoted => ?_
    obtain ⟨c, tail, htext⟩ := List.exists_cons_of_ne_nil hne
    rw [htext] at hspells hm
    rw [reported_of_spells hspells, messages_of_spells hspells hquoted] at hm
    exact List.not_mem_nil hm
  · show t'.extent.offset + m.position.start - t'.extent.offset =
      t.extent.offset + m.position.start - t.extent.offset
    rw [Nat.add_sub_cancel_left, Nat.add_sub_cancel_left]

theorem forall₂_flatMap_zip {α β γ δ : Type} {R : α → β → Prop} {S : α → β → γ → δ → Prop}
    {f : α → List γ} {g : β → List δ} {as : List α} {bs : List β} (h : List.Forall₂ R as bs)
    (hfg : ∀ a ∈ as, ∀ b, R a b → List.Forall₂ (S a b) (f a) (g b)) :
    List.Forall₂ (fun x y => ∃ p ∈ as.zip bs, S p.1 p.2 x y) (as.flatMap f) (bs.flatMap g) := by
  induction h with
  | nil => exact .nil
  | @cons a b as bs hab _ ih =>
    rw [List.flatMap_cons, List.flatMap_cons, List.zip_cons_cons]
    refine List.rel_append ?_ ?_
    · refine (hfg a List.mem_cons_self b hab).imp fun x y hxy => ?_
      exact ⟨(a, b), List.mem_cons_self, hxy⟩
    · refine (ih fun a ha => hfg a (List.mem_cons_of_mem _ ha)).imp ?_
      rintro x y ⟨p, hp, hxy⟩
      exact ⟨p, List.mem_cons_of_mem _ hp, hxy⟩

end Warnings

/-- **Other blanks between its lexemes change nothing about a text that is tokens**: the lexemes are
    the same tokens where they have been put, and the same warnings come, in the same order, each at
    the same place of the literal it is in. -/
theorem tokenize_spaced {source : List Char} {ts : List Token}
    (h : (tokenize source .empty).2 = some ts) (s : Spacing) :
    (tokenize (s.text source ts) .empty).2 = some (s.tokens 0 ts) ∧
      List.Forall₂ (Spacing.SameLexeme source (s.text source ts)) ts (s.tokens 0 ts) ∧
      List.Forall₂
        (fun m m' => ∃ p ∈ ts.zip (s.tokens 0 ts),
          p.1.lexeme.IsQuoted ∧ Message.CarriedOver p.1 p.2 m m')
        (tokenize source .empty).1.messages (tokenize (s.text source ts) .empty).1.messages := by
  have hdivides := divides_of_tokensFrom (tailAt_zero source) (outcome_of_tokenize h)
  obtain ⟨hspaced, hsame⟩ := Spacing.divides hdivides s (List.nil_append _).symm
  rw [width_nil] at hspaced hsame
  refine ⟨?_, hsame, ?_⟩
  · rw [result_tokenize]
    exact Stage.result?_of_outcome (tokensFrom_of_divides hspaced)
  · rw [messages_tokenize, messages_tokenize, messages_of_divides hdivides,
      messages_of_divides hspaced]
    refine forall₂_flatMap_zip
      (S := fun t t' m m' => t.lexeme.IsQuoted ∧ Message.CarriedOver t t' m m') hsame ?_
    intro t ht t' htt'
    obtain ⟨hspells, hne, hlength⟩ := spells_of_divides hdivides ht
    exact carriedOver_of_sameLexeme hspells hne hlength htt'

/-- The two lexemes of `a'\999'` on a line each, the second with its warning. -/
theorem tokenize_spaced_newlines :
    (tokenize ['a', '\'', '\\', '9', '9', '9', '\''] .empty).2 =
        some [⟨.identifier "a", 0, 1⟩, ⟨.charLiteral 'ç', 1, 6⟩] ∧
      (tokenize ['a', '\n', '\'', '\\', '9', '9', '9', '\''] .empty).2 =
        some [⟨.identifier "a", 0, 1⟩, ⟨.charLiteral 'ç', 2, 6⟩] ∧
      ∃ m m', (tokenize ['a', '\'', '\\', '9', '9', '9', '\''] .empty).1.messages = [m] ∧
        (tokenize ['a', '\n', '\'', '\\', '9', '9', '9', '\''] .empty).1.messages = [m'] ∧
        Message.CarriedOver ⟨.charLiteral 'ç', 1, 6⟩ ⟨.charLiteral 'ç', 2, 6⟩ m m' := by
  have htokens : (tokenize ['a', '\'', '\\', '9', '9', '9', '\''] .empty).2 =
      some [⟨.identifier "a", 0, 1⟩, ⟨.charLiteral 'ç', 1, 6⟩] := by decide +kernel
  have htext : Spacing.newlines.text ['a', '\'', '\\', '9', '9', '9', '\'']
      [⟨.identifier "a", 0, 1⟩, ⟨.charLiteral 'ç', 1, 6⟩] =
        ['a', '\n', '\'', '\\', '9', '9', '9', '\''] := by decide +kernel
  have hmessages : (tokenize ['a', '\'', '\\', '9', '9', '9', '\''] .empty).1.messages =
      [⟨"number \x60999\x60 too large for character", .warning, .clamped 2 4 0⟩] := by decide +kernel
  obtain ⟨hspaced, -, hwarnings⟩ := tokenize_spaced htokens .newlines
  rw [htext] at hspaced hwarnings
  rw [hmessages] at hwarnings ⊢
  obtain ⟨m', rest, ⟨p, hp, hquoted, hcarried⟩, hrest, hadded⟩ :=
    List.forall₂_cons_left_iff.mp hwarnings
  rw [List.forall₂_nil_left_iff.mp hrest] at hadded
  refine ⟨htokens, hspaced, _, m', rfl, hadded, ?_⟩
  rcases List.mem_cons.mp hp with rfl | hp
  · exact absurd hquoted id
  · cases List.mem_singleton.mp hp
    exact hcarried

end SourceScan
