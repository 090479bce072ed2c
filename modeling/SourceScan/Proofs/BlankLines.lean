import SourceScan.Program.Run
import SourceScan.Proofs.Decomposition

/-!
# Proofs/BlankLines.lean -- what is hidden with the blank lines

A run over an input passes over blank lines. Blank is what Unicode calls white space, while a pass
takes six characters within ASCII for spaces; these are the blank characters of ASCII. So a blank
line of spaces is passed over rightly, since a pass over it gives no token and no message. In any
other blank line the first character that is no space is beyond ASCII, and what is hidden with the
line is the error that no piece begins there.

* `respondTo_eq_nothing_iff`: nothing is printed for a line without tokens and messages, and for no
  other line.
* `lineUnit_of_spaces`, `lineUnit_of_strayBlank`: the unit of a blank line.
* `foldr_eq_iff`: answers of which some are left out print the same if those are nothing.
* **`printed_with_blankLines_iff`**: which blank lines hide something.
* `blankLine_hides_error`: a line with a no-break space.
-/

namespace SourceScan

open Text Alphabet

/-! ## 1. What is printed for a line -/

/-- Every rendering has at least the newline behind its header. -/
theorem rendered_ne_nil (m : Message) (name : String) (source : List Char)
    (options : Presentation) : m.rendered name source options ≠ [] := by
  unfold Message.rendered
  exact List.append_ne_nil_of_left_ne_nil (List.append_ne_nil_of_right_ne_nil _ (by simp)) _

theorem listing_eq_empty_iff (tokens : List Token) : listing tokens = "" ↔ tokens = [] := by
  cases tokens with
  | nil => exact iff_of_true rfl rfl
  | cons t tokens =>
    refine iff_of_false (fun h => ?_) (List.cons_ne_nil _ _)
    have hlist := congrArg String.toList h
    simp [listing] at hlist

theorem renderedAll_eq_nil_iff (messages : List Message) (name : String) (source : List Char)
    (options : Presentation) : renderedAll messages name source options = [] ↔ messages = [] := by
  cases messages with
  | nil => exact iff_of_true rfl rfl
  | cons m messages =>
    refine iff_of_false (fun h => ?_) (List.cons_ne_nil _ _)
    exact rendered_ne_nil m name source options (List.append_eq_nil_iff.mp h).1

/-- **Nothing is printed for a line that has no tokens and no messages**, and for no other. -/
theorem respondTo_eq_nothing_iff (render : Presentation) (line : List Char) :
    respondTo render line = .nothing ↔
      (lineUnit line).tokens = [] ∧ (lineUnit line).messages = [] := by
  rw [respondTo, Printed.nothing, Printed.mk.injEq, listing_eq_empty_iff, SourceUnit.rendered,
    String.ofList_eq_empty_iff, renderedAll_eq_nil_iff]

/-! ## 2. The units of blank lines -/

/-- The blank characters of ASCII are the spaces. -/
theorem isSpace_of_isBlank :
    ∀ c : Char, isBlank c = true → c.toNat < 128 → isSpace c = true :=
  forall_of_ascii (fun _ hc _ hlt => absurd hlt (Nat.not_lt.mpr hc)) (by decide +kernel)

/-- The unit of a line holds what its stages come to. -/
theorem lineUnit_eq (line : List Char) :
    (lineUnit line).tokens = (tokensFrom 0 line).result?.getD [] ∧
      (lineUnit line).messages = (tokensFrom 0 line).messages := by
  have hmessages := messages_tokenize line .empty
  have hresult := result_tokenize line .empty
  constructor
  · show (tokenize (String.ofList line).toList .empty).2.getD [] = _
    rw [String.toList_ofList, hresult]
  · show (tokenize (String.ofList line).toList .empty).1.messages = _
    rw [String.toList_ofList, hmessages]
    rfl

/-- A line of spaces has no tokens and no messages. -/
theorem lineUnit_of_spaces {line : List Char} (h : ∀ c ∈ line, isSpace c = true) :
    (lineUnit line).tokens = [] ∧ (lineUnit line).messages = [] := by
  have hpassed : tokensFrom 0 line = pure [] := tokensFrom_gap (.blanks (blanks_of_spaces h) []) 0
  obtain ⟨htokens, hmessages⟩ := lineUnit_eq line
  rw [htokens, hmessages, hpassed]
  exact ⟨rfl, rfl⟩

/-- A line whose first character that is no space is blank has no tokens, and one message: the error
    about that character. -/
theorem lineUnit_of_strayBlank {front : List Char} {c : Char}
    (hfront : ∀ d ∈ front, isSpace d = true) (hblank : isBlank c = true) (hc : isSpace c = false)
    (rest : List Char) :
    (lineUnit (front ++ c :: rest)).tokens = [] ∧
      (lineUnit (front ++ c :: rest)).messages =
        [⟨(Fault.strayCharacter c).text, .error, .clamped (width front) c.utf8Size 0⟩] := by
  have hbeyond : 128 ≤ c.toNat := Nat.le_of_not_lt fun hlt =>
    Bool.false_ne_true (hc.symm.trans (isSpace_of_isBlank c hblank hlt))
  have hstops : tokensFrom 0 (front ++ c :: rest) =
      .fail (.strayCharacter c) (.clamped (width front) c.utf8Size 0) (width front) := by
    rw [tokensFrom_blanks (blanks_of_spaces hfront), Nat.zero_add, tokensFrom_cons,
      Piece.read_of_le rest hbeyond]
    rfl
  obtain ⟨htokens, hmessages⟩ := lineUnit_eq (front ++ c :: rest)
  rw [htokens, hmessages, hstops]
  exact ⟨rfl, rfl⟩

/-- **A blank line hides nothing if and only if it is made of spaces.** -/
theorem lineUnit_eq_nil_iff {line : List Char} (h : isBlankLine line = true) :
    (lineUnit line).tokens = [] ∧ (lineUnit line).messages = [] ↔
      ∀ c ∈ line, isSpace c = true := by
  refine ⟨fun hnothing => ?_, lineUnit_of_spaces⟩
  obtain ⟨front, rest, rfl, -, hrun⟩ := exists_longestRun isSpace line
  cases rest with
  | nil =>
    rw [List.append_nil]
    exact hrun.accepted
  | cons c rest =>
    have hmem : c ∈ front ++ c :: rest := List.mem_append_right front List.mem_cons_self
    have hblank : isBlank c = true := List.all_eq_true.mp h c hmem
    have hmessage := (lineUnit_of_strayBlank hrun.accepted hblank (hrun.ends c rfl) rest).2
    rw [hnothing.2] at hmessage
    cases hmessage

/-! ## 3. Answers that are left out -/

namespace Printed

/-- How much is printed, on both channels. -/
def size (p : Printed) : Nat :=
  p.stdout.length + p.stderr.length

theorem size_append (a b : Printed) : (a.append b).size = a.size + b.size := by
  simp only [size, append, String.length_append]
  omega

theorem size_eq_zero_iff {p : Printed} : p.size = 0 ↔ p = nothing := by
  obtain ⟨stdout, stderr⟩ := p
  simp [size, nothing]

theorem append_right_inj (a : Printed) {b c : Printed} : a.append b = a.append c ↔ b = c := by
  obtain ⟨stdout, stderr⟩ := b
  obtain ⟨stdout', stderr'⟩ := c
  simp [append]

theorem append_left_inj (a : Printed) {b c : Printed} : b.append a = c.append a ↔ b = c := by
  obtain ⟨stdout, stderr⟩ := b
  obtain ⟨stdout', stderr'⟩ := c
  simp [append]

end Printed

section Answers

variable {α : Type} {f g : α → Printed} (h : ∀ a, f a = g a ∨ f a = .nothing)

include h

/-- With answers left out no more is printed. -/
theorem size_foldr_le (as : List α) : ((as.map f).foldr Printed.append .nothing).size ≤
    ((as.map g).foldr Printed.append .nothing).size := by
  induction as with
  | nil => exact Nat.le_refl _
  | cons a as ih =>
    have hone : (f a).size ≤ (g a).size := by
      rcases h a with hsame | hnone
      · exact Nat.le_of_eq (congrArg Printed.size hsame)
      · rw [hnone, Printed.size_eq_zero_iff.mpr rfl]
        exact Nat.zero_le _
    rw [List.map_cons, List.map_cons, List.foldr_cons, List.foldr_cons, Printed.size_append,
      Printed.size_append]
    exact Nat.add_le_add hone ih

/-- **Answers of which some are left out print the same if and only if those are nothing.** -/
theorem foldr_eq_iff (as : List α) : (as.map f).foldr Printed.append .nothing =
    (as.map g).foldr Printed.append .nothing ↔ ∀ a ∈ as, f a = g a := by
  induction as with
  | nil => exact iff_of_true rfl (List.forall_mem_nil _)
  | cons a as ih =>
    rw [List.map_cons, List.map_cons, List.foldr_cons, List.foldr_cons, List.forall_mem_cons, ← ih]
    refine ⟨fun heq => ?_, fun ⟨hsame, hrest⟩ => by rw [hsame, hrest]⟩
    have hsame : f a = g a := by
      rcases h a with hsame | hnone
      · exact hsame
      · -- what is printed for the rest makes up for what is not printed here
        have hsize := congrArg Printed.size heq
        have hle := size_foldr_le h as
        rw [hnone, Printed.nothing_append, Printed.size_append] at hsize
        have hzero : (g a).size = 0 := by omega
        rw [hnone, Printed.size_eq_zero_iff.mp hzero]
    exact ⟨hsame, (Printed.append_right_inj (f a)).mp (hsame ▸ heq)⟩

end Answers

/-! ## 4. Inputs -/

/-- What is printed for a line unless it is blank is what is printed for it, or nothing. -/
theorem respondUnlessBlank_eq_or (render : Presentation) (line : List Char) :
    respondUnlessBlank render line = respondTo render line ∨
      respondUnlessBlank render line = .nothing := by
  unfold respondUnlessBlank
  split
  · exact .inr rfl
  · exact .inl rfl

/-- It is what is printed for the line if and only if that hides nothing. -/
theorem respondUnlessBlank_eq_iff (render : Presentation) (line : List Char) :
    respondUnlessBlank render line = respondTo render line ↔
      (isBlankLine line = true → ∀ c ∈ line, isSpace c = true) := by
  unfold respondUnlessBlank
  split
  · next hblank =>
    rw [eq_comm, respondTo_eq_nothing_iff, lineUnit_eq_nil_iff hblank, forall_prop_of_true hblank]
  · next hblank => exact iff_of_true rfl fun h => absurd h hblank

/-- **What is printed for an input is what the lines handed over give, blank ones included, if and
    only if the blank ones are made of spaces.** -/
theorem printed_eq_iff (reader : String → LinesRead) (render : Presentation) (input : String) :
    (runInput reader render input).printed =
        (((reader input).lines.map (respondTo render)).foldr Printed.append .nothing).append
          (reader input).report ↔
      ∀ line ∈ (reader input).lines, isBlankLine line = true → ∀ c ∈ line, isSpace c = true := by
  show (respondToAll render (reader input).lines).append (reader input).report = _ ↔ _
  rw [Printed.append_left_inj, respondToAll, foldr_eq_iff (respondUnlessBlank_eq_or render)]
  exact forall₂_congr fun line _ => respondUnlessBlank_eq_iff render line

/-- **Passing over blank lines hides nothing if and only if they are made of spaces.** A blank line
    of spaces has no tokens and no messages; any other has no tokens and one message, the error about
    its first character that is no space. This is so whatever lines are handed over for an input. -/
theorem printed_with_blankLines_iff (reader : String → LinesRead) (render : Presentation)
    (input : String) :
    (∀ line, isBlankLine line = true →
      ((lineUnit line).tokens = [] ∧ (lineUnit line).messages = [] ↔
        ∀ c ∈ line, isSpace c = true) ∧
      ∀ front c rest, line = front ++ c :: rest → (∀ d ∈ front, isSpace d = true) →
        isSpace c = false → (lineUnit line).tokens = [] ∧ (lineUnit line).messages =
          [⟨(Fault.strayCharacter c).text, .error, .clamped (width front) c.utf8Size 0⟩]) ∧
    ((runInput reader render input).printed =
        (((reader input).lines.map (respondTo render)).foldr Printed.append .nothing).append
          (reader input).report ↔
      ∀ line ∈ (reader input).lines, isBlankLine line = true → ∀ c ∈ line, isSpace c = true) := by
  refine ⟨fun line hblank => ⟨lineUnit_eq_nil_iff hblank, ?_⟩, printed_eq_iff reader render input⟩
  rintro front c rest rfl hfront hc
  have hmem : c ∈ front ++ c :: rest := List.mem_append_right front List.mem_cons_self
  exact lineUnit_of_strayBlank hfront (List.all_eq_true.mp hblank c hmem) hc rest

/-- A space and an ideographic space, and an input whose blank lines are made of spaces. -/
theorem printed_with_blankLines_iff_ideographic :
    isBlankLine [' ', '\u3000'] = true ∧ (lineUnit [' ', '\u3000']).tokens = [] ∧
      (lineUnit [' ', '\u3000']).messages =
        [⟨(Fault.strayCharacter '\u3000').text, .error, .clamped 1 3 0⟩] ∧
      plainReader " \t\n@\n\x0c\n" = ⟨[[' ', '\t'], ['@'], ['\x0c']], none⟩ ∧
      (runInput plainReader ⟨false, 0⟩ " \t\n@\n\x0c\n").printed =
        ([[' ', '\t'], ['@'], ['\x0c']].map (respondTo ⟨false, 0⟩)).foldr Printed.append
          .nothing := by
  obtain ⟨hlines, hprinted⟩ := printed_with_blankLines_iff plainReader ⟨false, 0⟩ " \t\n@\n\x0c\n"
  have hblank : isBlankLine [' ', '\u3000'] = true := by decide
  have hread : plainReader " \t\n@\n\x0c\n" = ⟨[[' ', '\t'], ['@'], ['\x0c']], none⟩ := by
    decide +kernel
  obtain ⟨htokens, hmessages⟩ := (hlines _ hblank).2 [' '] '\u3000' [] rfl (by simp [isSpace]) rfl
  have hspaces : ∀ line ∈ [[' ', '\t'], ['@'], ['\x0c']], isBlankLine line = true →
      line.all isSpace = true := by decide
  rw [hread] at hprinted
  refine ⟨hblank, htokens, hmessages, hread,
    (hprinted.mpr fun line hline hblank => ?_).trans (Printed.append_nothing _)⟩
  exact List.all_eq_true.mp (hspaces line hline hblank)

/-- **A blank line can hide an error**: a pass over a no-break space reports one, and nothing is
    printed for the line. -/
theorem blankLine_hides_error :
    isBlankLine ['\u00a0'] = true ∧
      (lineUnit ['\u00a0']).messages =
        [⟨"invalid character `\\u\x7ba0\x7d` in source code", .error, .clamped 0 2 0⟩] ∧
      (respondTo ⟨false, 0⟩ ['\u00a0']).stderr =
        "<repl>:1:1: error: invalid character `\\u\x7ba0\x7d` in source code\n" ++
          " 1 | \u00a0\n   | ^\n" ∧
      plainReader "\u00a0\n" = ⟨[['\u00a0']], none⟩ ∧
      (runInput plainReader ⟨false, 0⟩ "\u00a0\n").printed = .nothing ∧
      (runInput plainReader ⟨false, 0⟩ "\u00a0\n").printed ≠
        ((plainReader "\u00a0\n").lines.map (respondTo ⟨false, 0⟩)).foldr Printed.append
          .nothing := by
  decide +kernel

end SourceScan
