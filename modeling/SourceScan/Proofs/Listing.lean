import SourceScan.Proofs.ReadBack
import SourceScan.Proofs.Sentences
import SourceScan.Program.Run

/-!
# Proofs/Listing.lean -- what a listing tells about its tokens

A listing has a line for every token, whatever a token holds: quoted forms hold no newline. The line
of a token that is no numeral tells its kind, its value and where it begins. The kind ends at the
first space. The value is in quoted form, and a quoted form ends where its text says: a mark inside
it is written behind a backslash, and every backslash begins an escape that can be read back.

* `readQuoted`: the character that a quoted form shows first.
* `quotedString_inj`, `quotedChar_inj`: a quoted form tells what it quotes and where it ends.
* `Token.printable_shown`, `Token.shown_inj`: the line of a token.
* **`listing_of_tokenize`**: the listings of a text that has tokens.
-/

namespace SourceScan

open Text

/-! ## 1. Quoted forms -/

namespace Text

/-- The number that hexadecimal digits write. -/
def codePoint (figures : List Char) : Nat :=
  figures.foldl (fun n c => 16 * n + (Radix.figure? c).getD 0) 0

/-- The character that a backslash and what is behind it stand for, and the rest. -/
def readEscape : List Char → Option (Char × List Char)
  | '0' :: rest => some ('\x00', rest)
  | 't' :: rest => some ('\t', rest)
  | 'n' :: rest => some ('\n', rest)
  | 'r' :: rest => some ('\r', rest)
  | 'u' :: '\x7b' :: rest =>
    let (figures, rest) := around '\x7d' rest
    some (Char.ofNat (codePoint figures), rest)
  | c :: rest => some (c, rest)
  | [] => none

/-- The character that a text in quoted form begins with, and the rest. -/
def readQuoted : List Char → Option (Char × List Char)
  | '\\' :: rest => readEscape rest
  | c :: rest => some (c, rest)
  | [] => none

/-- The digits of a number read back as it. -/
theorem codePoint_toDigits (n : Nat) : codePoint (Nat.toDigits 16 n) = n := by
  have hfigure : ∀ d < 16, (Radix.figure? (Nat.digitChar d)).getD 0 = d := by decide
  induction n using Nat.strongRecOn with
  | ind n ih =>
    rw [Nat.toDigits_eq_if (by decide)]
    split
    case isTrue hlt =>
      show 16 * 0 + _ = n
      rw [hfigure n hlt, Nat.mul_zero, Nat.zero_add]
    case isFalse hle =>
      have hfront := ih (n / 16) (Nat.div_lt_self (by omega) (by decide))
      rw [codePoint] at hfront
      rw [codePoint, List.foldl_append, hfront, List.foldl_cons, List.foldl_nil,
        hfigure _ (Nat.mod_lt n (by decide)), Nat.div_add_mod]

/-- A code between braces reads back as its character. -/
theorem readQuoted_escapedCode (c : Char) (rest : List Char) :
    readQuoted (escapedCode c ++ rest) = some (c, rest) := by
  have hfigures : '\x7d' ∉ Nat.toDigits 16 c.toNat := fun hmem => by
    obtain ⟨d, hd, heq⟩ := exists_digitChar_of_mem_toDigits (by decide) hmem
    have hne : ∀ d < 16, '\x7d' ≠ Nat.digitChar d := by decide
    exact hne d hd heq
  have htext : escapedCode c ++ rest =
      '\\' :: 'u' :: '\x7b' :: (Nat.toDigits 16 c.toNat ++ '\x7d' :: rest) := by
    simp only [escapedCode, List.append_assoc, List.cons_append, List.nil_append]
  rw [htext, readQuoted, readEscape, around_append hfigures]
  dsimp only
  rw [codePoint_toDigits, Char.ofNat_toNat]

section Escaped

variable {marks : List Char} (hmarks : ∀ m ∈ marks, m = '\'' ∨ m = '"')

include hmarks

/-- A character in quoted form reads back. -/
theorem readQuoted_escaped (c : Char) (rest : List Char) :
    readQuoted (escaped marks c ++ rest) = some (c, rest) := by
  unfold escaped
  split_ifs with hnul ht hn hr hbackslash hmark hunprintable
  · rw [hnul]; rfl
  · rw [ht]; rfl
  · rw [hn]; rfl
  · rw [hr]; rfl
  · rw [hbackslash]; rfl
  · rcases hmarks c hmark with rfl | rfl <;> rfl
  · exact readQuoted_escapedCode c rest
  · unfold readQuoted
    split <;> simp_all

/-- A character in quoted form, and what is behind it, can be told from the text. -/
theorem escaped_inj {c c' : Char} {rest rest' : List Char}
    (h : escaped marks c ++ rest = escaped marks c' ++ rest') : c = c' ∧ rest = rest' := by
  have hread := readQuoted_escaped hmarks c rest
  rw [h, readQuoted_escaped hmarks, Option.some.injEq, Prod.mk.injEq] at hread
  exact ⟨hread.1.symm, hread.2.symm⟩

/-- A quoted form begins with a backslash, or with a character that is no mark. -/
theorem escaped_begins (c : Char) : ∃ d ds, escaped marks c = d :: ds ∧ d ∉ marks := by
  have hbackslash : '\\' ∉ marks := fun hmem => absurd (hmarks '\\' hmem) (by decide)
  unfold escaped
  split_ifs with hnul ht hn hr hslash hmark hunprintable
  all_goals first | exact ⟨'\\', _, rfl, hbackslash⟩ | exact ⟨c, [], rfl, hmark⟩

/-- No character in quoted form begins with a mark. -/
theorem escaped_ne_mark {mark : Char} (hmark : mark ∈ marks) (c : Char) (rest rest' : List Char) :
    escaped marks c ++ rest ≠ mark :: rest' := by
  obtain ⟨d, ds, hd, hnot⟩ := escaped_begins hmarks c
  rw [hd]
  exact fun h => hnot ((List.cons.inj h).1 ▸ hmark)

end Escaped

/-- **A string in quoted form ends where its text says.** -/
theorem quotedString_inj {s s' rest rest' : List Char}
    (h : quotedString s ++ rest = quotedString s' ++ rest') : s = s' ∧ rest = rest' := by
  have hmarks : ∀ m ∈ ['"'], m = '\'' ∨ m = '"' := by simp
  have hlists : '"' :: (s.flatMap (escaped ['"']) ++ '"' :: rest) =
      '"' :: (s'.flatMap (escaped ['"']) ++ '"' :: rest') := by
    simpa only [quotedString, List.append_assoc, List.cons_append, List.nil_append] using h
  exact flatMap_inj_of_mark (escaped_inj hmarks)
    (escaped_ne_mark hmarks (List.mem_singleton_self _)) (List.cons.inj hlists).2

/-- So does a character. -/
theorem quotedChar_inj {c c' : Char} {rest rest' : List Char}
    (h : quotedChar c ++ rest = quotedChar c' ++ rest') : c = c' ∧ rest = rest' := by
  have hmarks : ∀ m ∈ ['\''], m = '\'' ∨ m = '"' := by simp
  have hlists : '\'' :: (escaped ['\''] c ++ '\'' :: rest) =
      '\'' :: (escaped ['\''] c' ++ '\'' :: rest') := by
    simpa only [quotedChar, List.append_assoc, List.cons_append, List.nil_append] using h
  obtain ⟨hc, htail⟩ := escaped_inj hmarks (List.cons.inj hlists).2
  exact ⟨hc, (List.cons.inj htail).2⟩

end Text

/-! ## 2. Values -/

theorem printable_quotedString (s : List Char) : Printable (quotedString s) := by
  have hbody : Printable (s.flatMap (escaped ['"'])) := fun d hd => by
    obtain ⟨c, -, hd⟩ := List.mem_flatMap.mp hd
    exact isControl_of_mem_escaped (by simp [isControl]) hd
  exact (Printable.cons (by decide) hbody).append (.singleton (by decide))

theorem printable_quotedChar (c : Char) : Printable (quotedChar c) := by
  have hbody : Printable (escaped ['\''] c) := fun _ =>
    isControl_of_mem_escaped (by simp [isControl])
  exact (Printable.cons (by decide) hbody).append (.singleton (by decide))

namespace Value

theorem printable_shown (v : Value) : Printable v.shown := by
  cases v with
  | number x => exact SourceScan.printable_shown x
  | text s => exact printable_quotedString s.toList
  | char c => exact printable_quotedChar c

/-- A value that is no number is told by its quoted form: the mark tells a text from a character. -/
theorem shown_inj {v v' : Value} {rest rest' : List Char} (hv : v.number? = none)
    (hv' : v'.number? = none) (h : v.shown ++ rest = v'.shown ++ rest') :
    v = v' ∧ rest = rest' := by
  have hmarks : '"' ≠ '\'' := by decide
  cases v with
  | number x => cases hv
  | text s =>
    cases v' with
    | number x => cases hv'
    | text s' =>
      obtain ⟨hs, hrest⟩ := quotedString_inj h
      exact ⟨congrArg text (String.toList_inj.mp hs), hrest⟩
    | char c' => exact absurd (List.cons.inj h).1 hmarks
  | char c =>
    cases v' with
    | number x => cases hv'
    | text s' => exact absurd (List.cons.inj h).1 hmarks.symm
    | char c' =>
      obtain ⟨hc, hrest⟩ := quotedChar_inj h
      exact ⟨congrArg char hc, hrest⟩

end Value

/-! ## 3. Tokens -/

/-- The name of a kind is a printable word. -/
theorem Lexeme.word_kind (lexeme : Lexeme) :
    Printable lexeme.kind.toList ∧ ' ' ∉ lexeme.kind.toList := by
  have hkinds : ∀ kind ∈ ["numeric_literal", "char_literal", "string_literal", "operator",
      "punctuation", "identifier"], Printable kind.toList ∧ ' ' ∉ kind.toList := by decide
  exact hkinds lexeme.kind (by cases lexeme <;> simp [kind])

namespace Token

/-- The line of a token in its parts. -/
theorem toList_shown (t : Token) : t.shown.toList = t.lexeme.kind.toList ++ ' ' ::
    (t.lexeme.value.shown ++ ' ' :: '@' :: Nat.toDigits 10 t.extent.offset) := by
  have hoffset : (toString t.extent.offset).toList = Nat.toDigits 10 t.extent.offset :=
    Nat.toList_repr
  have hspace : " ".toList = [' '] := rfl
  have hat : " @".toList = [' ', '@'] := rfl
  simp only [shown, String.toList_append, String.toList_ofList, hoffset, hspace, hat,
    List.append_assoc, List.cons_append, List.nil_append]

/-- The line of a token is printable. -/
theorem printable_shown (t : Token) : Printable t.shown.toList := by
  have hoffset : Printable (Nat.toDigits 10 t.extent.offset) := fun c hc =>
    isControl_of_isDigit (Nat.isDigit_of_mem_toDigits (by decide) (by decide) hc)
  rw [toList_shown]
  exact t.lexeme.word_kind.1.append (.cons (by decide)
    (t.lexeme.value.printable_shown.append (.cons (by decide) (.cons (by decide) hoffset))))

/-- **The line of a token that is no numeral tells its kind, its value and its offset.** -/
theorem shown_inj {t t' : Token} (ht : t.lexeme.value.number? = none)
    (ht' : t'.lexeme.value.number? = none) (h : t.shown = t'.shown) :
    t.lexeme.kind = t'.lexeme.kind ∧ t.lexeme.value = t'.lexeme.value ∧
      t.extent.offset = t'.extent.offset := by
  have hline := congrArg String.toList h
  rw [toList_shown, toList_shown] at hline
  -- the kind ends at the first space, the value where its text says, and the offset ends the line
  have hparts := congrArg (around ' ') hline
  rw [around_append t.lexeme.word_kind.2, around_append t'.lexeme.word_kind.2,
    Prod.mk.injEq] at hparts
  obtain ⟨hkind, hbehind⟩ := hparts
  obtain ⟨hvalue, hoffset⟩ := Value.shown_inj ht ht' hbehind
  have hdigits : Nat.toDigits 10 t.extent.offset = Nat.toDigits 10 t'.extent.offset :=
    (List.cons.inj (List.cons.inj hoffset).2).2
  exact ⟨String.toList_inj.mp hkind, hvalue, eq_of_toDigits_eq hdigits⟩

end Token

/-! ## 4. Listings -/

/-- The text of a listing. -/
theorem toList_listing (tokens : List Token) :
    (listing tokens).toList = tokens.flatMap fun t => t.shown.toList ++ ['\n'] := by
  induction tokens with
  | nil => rfl
  | cons t tokens ih =>
    rw [List.flatMap_cons, ← ih]
    simp [listing]

/-- A listing has one line for every token, and nothing behind its last newline. -/
theorem lines_listing (tokens : List Token) :
    lines (listing tokens).toList = tokens.map (·.shown.toList) ++ [[]] := by
  rw [toList_listing]
  exact lines_flatMap_newline fun t _ => t.printable_shown.newline_notMem

/-- What a run over a file lists. -/
theorem stdout_runFile {source path : String} {tokens : List Token} {options : Options}
    (h : (tokenize source.toList .empty).2 = some tokens) (hformat : options.format = .text)
    (hdump : options.dumpTokens = true) (render : Presentation) :
    (runFile options render path (.ok source)).printed.stdout = listing tokens := by
  have htokens : (SourceUnit.ofSource path source).tokens = tokens := by
    show (tokenize source.toList .empty).2.getD [] = tokens
    rw [h, Option.getD_some]
  have hsucceeded : (SourceUnit.ofSource path source).succeeded = true := by
    show (tokenize source.toList .empty).2.isSome = true
    rw [h, Option.isSome_some]
  show (Outcome.printed (if _ then _ else _)).stdout = _
  rw [if_pos hsucceeded]
  show (printedUnit options render (SourceUnit.ofSource path source)).stdout = _
  rw [printedUnit, hformat]
  show (if options.dumpTokens && (SourceUnit.ofSource path source).succeeded then _ else _) = _
  rw [hdump, hsucceeded, htokens, Bool.and_self, if_pos rfl]

/-- **A text with tokens is listed line by line, a line for each token, over a file and over an
    input alike; and two tokens that are no numerals have the same line only if they have the same
    kind, the same value and the same offset.** -/
theorem listing_of_tokenize {source : String} {tokens : List Token}
    (h : (tokenize source.toList .empty).2 = some tokens) :
    (∀ (options : Options) (render : Presentation) (path : String), options.format = .text →
      options.dumpTokens = true →
      lines (runFile options render path (.ok source)).printed.stdout.toList =
        tokens.map (·.shown.toList) ++ [[]]) ∧
    (∀ render : Presentation, lines (respondTo render source.toList).stdout.toList =
      tokens.map (·.shown.toList) ++ [[]]) ∧
    (∀ t : Token, '\n' ∉ t.shown.toList) ∧
    ∀ t t' : Token, t.lexeme.value.number? = none → t'.lexeme.value.number? = none →
      t.shown = t'.shown → t.lexeme.kind = t'.lexeme.kind ∧ t.lexeme.value = t'.lexeme.value ∧
        t.extent.offset = t'.extent.offset := by
  refine ⟨fun options render path hformat hdump => ?_, fun render => ?_,
    fun t => t.printable_shown.newline_notMem, fun t t' => Token.shown_inj⟩
  · rw [stdout_runFile h hformat hdump, lines_listing]
  · have hstdout : (respondTo render source.toList).stdout = listing tokens := by
      show listing ((tokenize (String.ofList source.toList).toList .empty).2.getD []) = _
      rw [String.toList_ofList, h, Option.getD_some]
    rw [hstdout, lines_listing]

/-- A string that looks like the end of a line of a listing, and an apostrophe. -/
theorem listing_of_tokenize_imitation :
    (tokenize "\"x\\\" @9\\n\\\\\" '\\''".toList .empty).2 =
        some [⟨.stringLiteral "x\" @9\n\\", 0, 12⟩, ⟨.charLiteral '\'', 13, 4⟩] ∧
      lines (runFile ⟨some "f", true, .text, .never, 0, false⟩ ⟨false, 0⟩ "f"
          (.ok "\"x\\\" @9\\n\\\\\" '\\''")).printed.stdout.toList =
        ["string_literal \"x\\\" @9\\n\\\\\" @0".toList, "char_literal '\\'' @13".toList, []] ∧
      lines (respondTo ⟨false, 0⟩ "\"x\\\" @9\\n\\\\\" '\\''".toList).stdout.toList =
        ["string_literal \"x\\\" @9\\n\\\\\" @0".toList, "char_literal '\\'' @13".toList, []] := by
  have htokens : (tokenize "\"x\\\" @9\\n\\\\\" '\\''".toList .empty).2 =
      some [⟨.stringLiteral "x\" @9\n\\", 0, 12⟩, ⟨.charLiteral '\'', 13, 4⟩] := by decide +kernel
  obtain ⟨hfile, hline, -, -⟩ := listing_of_tokenize htokens
  have hlines : [(⟨.stringLiteral "x\" @9\n\\", 0, 12⟩ : Token), ⟨.charLiteral '\'', 13, 4⟩].map
      (·.shown.toList) ++ [[]] =
      ["string_literal \"x\\\" @9\\n\\\\\" @0".toList, "char_literal '\\'' @13".toList, []] := by
    decide +kernel
  rw [← hlines]
  exact ⟨htokens, hfile _ _ _ rfl rfl, hline _⟩

end SourceScan
