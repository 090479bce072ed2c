import SourceScan.Literal.Basic
import SourceScan.Token.Alphabet
import SourceScan.Token.Basic

/-!
# Token/Grammar.lean -- what a text is made of

The grammar of a source text, as relations between texts and what they stand for. No reader is in
it: how far a run goes is said by what may follow it.

* `Blanks`, `Gap`: what stands between lexemes. A comment that its newline does not end runs to the
  end of the text, so nothing follows such a gap.
* `LongestRun`: a run of a class that what follows does not go on with.
* `Escape.Spells`, `Literal.Spells`: what an escape and the contents of a literal are written as.
* `Lexeme.Spells`: the shape of each kind of lexeme, its value included.
* **`Divides`**: a text is gaps and lexemes from end to end, and these are its tokens.
-/

namespace SourceScan

open Text Alphabet

/-! ## 1. Gaps -/

/-- Spaces, and comments that end with their line. -/
inductive Blanks : List Char → Prop
  | nil : Blanks []
  | space {c : Char} {blanks : List Char} (hspace : isSpace c = true) (h : Blanks blanks) :
      Blanks (c :: blanks)
  | comment {line blanks : List Char} (hline : '\n' ∉ line) (h : Blanks blanks) :
      Blanks (commentMark :: line ++ '\n' :: blanks)

/-- What stands ahead of a lexeme or of the end of the text: `rest` is what follows. -/
inductive Gap : List Char → List Char → Prop
  | blanks {gap : List Char} (h : Blanks gap) (rest : List Char) : Gap gap rest
  | openComment {gap line : List Char} (h : Blanks gap) (hline : '\n' ∉ line) :
      Gap (gap ++ commentMark :: line) []

/-! ## 2. Runs -/

/-- A run of a class, and `rest`, which does not go on with it. -/
structure LongestRun (accept : Char → Bool) (run rest : List Char) : Prop where
  accepted : ∀ c ∈ run, accept c = true
  ends : ∀ c, rest.head? = some c → accept c = false

/-- The longest run of a class is what is taken while the class lasts, and the rest what is left. -/
theorem longestRun_iff {accept : Char → Bool} {run rest : List Char} :
    LongestRun accept run rest ↔
      (run ++ rest).takeWhile accept = run ∧ (run ++ rest).dropWhile accept = rest := by
  constructor
  · intro ⟨haccepted, hends⟩
    have hrest : rest.takeWhile accept = [] ∧ rest.dropWhile accept = rest := by
      cases rest with
      | nil => exact ⟨rfl, rfl⟩
      | cons c cs =>
        have hc : ¬ accept c = true := Bool.eq_false_iff.mp (hends c rfl)
        exact ⟨List.takeWhile_cons_of_neg hc, List.dropWhile_cons_of_neg hc⟩
    rw [List.takeWhile_append_of_pos haccepted, List.dropWhile_append_of_pos haccepted, hrest.1,
      hrest.2, List.append_nil]
    exact ⟨rfl, rfl⟩
  · intro ⟨htake, hdrop⟩
    refine ⟨fun c hc => ?_, fun c hc => ?_⟩
    · rw [← htake] at hc
      exact List.all_eq_true.mp List.all_takeWhile c hc
    · have hnot := List.head?_dropWhile_not accept (run ++ rest)
      rw [hdrop, hc] at hnot
      exact hnot

theorem longestRun_takeWhile (accept : Char → Bool) (cs : List Char) :
    LongestRun accept (cs.takeWhile accept) (cs.dropWhile accept) := by
  rw [longestRun_iff, List.takeWhile_append_dropWhile]
  exact ⟨rfl, rfl⟩

/-! ## 3. Escapes and literals -/

/-- What stands behind a backslash, what follows it, and the character the escape stands for. -/
inductive Escape.Spells : List Char → List Char → Option Char → Prop
  | nothing (rest : List Char) : Spells [';'] rest none
  | named {c d : Char} (hd : named? c = some d) (rest : List Char) : Spells [c] rest (some d)
  | decimal {run rest : List Char} (hne : run ≠ [])
      (hrun : LongestRun Radix.decimal.isDigit run rest) :
      Spells run rest (some (byteChar (Numeral.ofDigits .decimal run).value))
  | selected {c : Char} {radix : Radix} {run rest : List Char}
      (hradix : Radix.ofEscapeLetter? c = some radix) (hne : run ≠ [])
      (hrun : LongestRun radix.isDigit run rest) :
      Spells (c :: run) rest (some (byteChar (Numeral.ofDigits radix run).value))

/-- Only the first character of what follows tells whether an escape goes on. -/
theorem Escape.Spells.of_head? {spelling rest rest' : List Char} {decoded : Option Char}
    (h : Escape.Spells spelling rest decoded) (hhead : rest.head? = rest'.head?) :
    Escape.Spells spelling rest' decoded := by
  cases h with
  | nothing => exact .nothing rest'
  | named hd => exact .named hd rest'
  | decimal hne hrun => exact .decimal hne ⟨hrun.accepted, hhead ▸ hrun.ends⟩
  | selected hradix hne hrun => exact .selected hradix hne ⟨hrun.accepted, hhead ▸ hrun.ends⟩

/-- What stands between the marks of a literal, and the characters it stands for. -/
inductive Literal.Spells (quote : Quote) : List Char → List Char → Prop
  | nil : Spells quote [] []
  | char {c : Char} {text chars : List Char} (hmark : c ≠ quote.mark) (hend : c ≠ '\x00')
      (hescape : c ≠ '\\') (h : Spells quote text chars) : Spells quote (c :: text) (c :: chars)
  | escape {spelling text chars : List Char} {decoded : Option Char}
      (hspelling : Escape.Spells spelling (text ++ [quote.mark]) decoded)
      (h : Spells quote text chars) :
      Spells quote ('\\' :: spelling ++ text) (decoded.toList ++ chars)

/-! ## 4. Lexemes -/

/-- The text of a lexeme, and what follows it. -/
inductive Lexeme.Spells : Lexeme → List Char → List Char → Prop
  | identifier {c : Char} {run rest : List Char} (hc : startsIdentifier c = true)
      (hrun : LongestRun continuesIdentifier run rest) :
      Spells (.identifier (String.ofList (c :: run))) (c :: run) rest
  | operator {c : Char} {run rest : List Char} (hc : isOperator c = true)
      (hrun : LongestRun isOperator run rest) :
      Spells (.operator (String.ofList (c :: run))) (c :: run) rest
  | punctuation {c : Char} (hc : isPunctuation c = true) (rest : List Char) :
      Spells (.punctuation c) [c] rest
  | numeral {c : Char} {run rest : List Char} {n : Numeral} (hc : c.isDigit = true)
      (hrun : LongestRun continuesNumeral run rest)
      (hn : Numeral.parse .literal (c :: run) = .ok n) :
      Spells (.numeral n.value) (c :: run) rest
  | charLiteral {text : List Char} {d : Char} (h : Literal.Spells .char text [d])
      (rest : List Char) :
      Spells (.charLiteral d) (Quote.char.mark :: text ++ [Quote.char.mark]) rest
  | stringLiteral {text chars : List Char} (h : Literal.Spells .string text chars)
      (rest : List Char) :
      Spells (.stringLiteral (String.ofList chars)) (Quote.string.mark :: text ++ [Quote.string.mark])
        rest

/-- From `start` on, `source` is gaps and lexemes up to its end, which is behind `text`; the tokens
    are the lexemes, each with the stretch of the source that it takes. -/
inductive Divides (source : List Char) : Nat → List Char → List Token → Prop
  | last {start : Nat} {gap : List Char} (hgap : Gap gap []) : Divides source start gap []
  | token {start : Nat} {gap text rest : List Char} {lexeme : Lexeme} {extent : Extent}
      {tokens : List Token} (hgap : Gap gap (text ++ rest)) (hspells : lexeme.Spells text rest)
      (hne : text ≠ []) (hextent : extent = ⟨start + width gap, width text⟩)
      (hslice : slice source extent.offset (extent.offset + extent.length) = text)
      (h : Divides source (extent.offset + extent.length) rest tokens) :
      Divides source start (gap ++ text ++ rest) (⟨lexeme, extent⟩ :: tokens)

end SourceScan
