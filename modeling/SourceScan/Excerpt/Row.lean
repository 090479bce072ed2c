import SourceScan.Excerpt.Marks
import SourceScan.Excerpt.Paint

/-!
# Excerpt/Row.lean -- the rows of an excerpt

An excerpt shows the lines that a position meets and some lines around them. A line the position
meets has two rows, its text and an underline below; every other line has its text alone.

* `Underlined`: a marked line cut into what stands ahead of the marks, under them and behind. Cut so,
  the line still reads as it did, and the caret is below the character at the pointer.
* `Row`: a numbered row or an underline, with its painting.
* `excerptRows`: the rows, in order, of the lines shown; `mem_shownLines`: those a position meets are.
* `Row.print`: a row with its gutter. No row ends in the space that parts gutter and text.
-/

namespace SourceScan

open Text

/-! ## 1. A marked line -/

/-- A line cut at its marks: ahead of them; under them, ahead of the pointer; the character at the
    pointer; under them, behind the pointer; and behind them. `pointed` tells whether the pointer is
    on the line at all, as it may be behind the last character. -/
structure Underlined where
  ahead : List Char
  before : List Char
  pointed : Bool
  point : List Char
  after : List Char
  behind : List Char
deriving DecidableEq, Repr

/-- Cut a line at its marks. A column inside a character counts as the column where the character
    begins. -/
def Marks.cut (m : Marks) (line : List Char) : Underlined :=
  let start := charsBefore line m.start
  let stop := max (charsBefore line m.stop) start
  match m.pointer with
  | some column =>
    let p := max (charsBefore line column) start
    let point := (line.drop p).take 1
    let next := p + point.length
    { ahead := line.take start
      before := (line.take p).drop start
      pointed := true
      point := point
      after := (line.take stop).drop next
      behind := line.drop (max stop next) }
  | none =>
    { ahead := line.take start
      before := (line.take stop).drop start
      pointed := false
      point := []
      after := []
      behind := line.drop stop }

/-- Blank space as wide as a text: a tab for a tab, a space for all else. -/
def blankFor (text : List Char) : List Char :=
  text.map fun c => if c = '\t' then '\t' else ' '

/-- One tilde for each character. -/
def wave (text : List Char) : List Char :=
  List.replicate text.length '~'

theorem length_blankFor (text : List Char) : (blankFor text).length = text.length :=
  List.length_map _

theorem length_wave (text : List Char) : (wave text).length = text.length :=
  List.length_replicate

theorem caret_notMem_blankFor (text : List Char) : '^' ∉ blankFor text := by
  intro h
  obtain ⟨c, -, hc⟩ := List.mem_map.mp h
  split at hc <;> exact absurd hc (by decide)

theorem caret_notMem_wave (text : List Char) : '^' ∉ wave text :=
  fun h => absurd (List.eq_of_mem_replicate h) (by decide)

namespace Underlined

/-- The line itself, its marked part painted. -/
def painting (u : Underlined) (severity : Severity) : Painting :=
  [.bare u.ahead, .styled .emphasis u.before, .styled (.severity severity) u.point,
   .styled .emphasis u.after, .bare u.behind]

/-- What stands below the marked part: a caret at the pointer, wave at all else. -/
def squiggles (u : Underlined) : List Char :=
  wave u.before ++ (if u.pointed then ['^'] else []) ++ wave u.after

/-- The underline. -/
def underline (u : Underlined) (severity : Severity) : Painting :=
  [.bare (blankFor u.ahead), .styled (.severity severity) u.squiggles]

end Underlined

/-- The text from `i` on, cut at `j` if that is farther on. -/
theorem drop_take_append_drop_max (line : List Char) (i j : Nat) :
    (line.take j).drop i ++ line.drop (max j i) = line.drop i := by
  rcases Nat.le_total i j with hle | hle
  · rw [Nat.max_eq_left hle, List.drop_take, ← Nat.add_sub_cancel' hle, Nat.add_sub_cancel_left,
      ← List.drop_drop, List.take_append_drop]
  · rw [Nat.max_eq_right hle, List.drop_eq_nil_of_le (Nat.le_trans (List.length_take_le j line) hle),
      List.nil_append]

/-- **A line that is marked still reads as it did.** -/
theorem Marks.text_painting_cut (m : Marks) (line : List Char) (severity : Severity) :
    ((m.cut line).painting severity).text = line := by
  have hpoint : ∀ rest : List Char, rest.take 1 ++ rest.drop (rest.take 1).length = rest := by
    intro rest
    cases rest <;> rfl
  have htext : ∀ u : Underlined, (u.painting severity).text =
      u.ahead ++ u.before ++ (u.point ++ (u.after ++ u.behind)) := by
    intro u
    simp [Underlined.painting, Painting.text, Stroke.bare, Stroke.styled]
  rw [htext]
  unfold cut
  dsimp only
  split
  · dsimp only
    rw [drop_take_append_drop_max, take_append_drop_take (Nat.le_max_right ..), ← List.drop_drop,
      hpoint, List.take_append_drop]
  · dsimp only
    rw [take_append_drop_take (Nat.le_max_right ..), List.nil_append, List.nil_append,
      List.take_append_drop]

theorem Underlined.text_underline (u : Underlined) (severity : Severity) :
    (u.underline severity).text = blankFor u.ahead ++ wave u.before ++
      ((if u.pointed then ['^'] else []) ++ wave u.after) := by
  simp [underline, squiggles, Painting.text, Stroke.bare, Stroke.styled]

theorem Marks.pointed_cut (m : Marks) (line : List Char) :
    (m.cut line).pointed = m.pointer.isSome := by
  unfold cut
  dsimp only
  split <;> rename_i h <;> rw [h] <;> rfl

/-- Ahead of the pointer stands what ends at or before its column. -/
theorem Marks.length_ahead_cut {m : Marks} {column : Nat} (h : m.pointer = some column)
    (hle : m.start ≤ column) (line : List Char) :
    (m.cut line).ahead.length + (m.cut line).before.length = charsBefore line column := by
  have hmono := charsBefore_mono line hle
  have hlength := charsBefore_le_length line column
  unfold cut
  rw [h]
  dsimp only
  rw [Nat.max_eq_left hmono, List.length_drop, List.length_take, List.length_take]
  omega

/-- **The caret stands below the character at the pointer**, and nothing else below the line looks
    like it. -/
theorem Marks.text_underline_of_pointer {m : Marks} {column : Nat} (h : m.pointer = some column)
    (hle : m.start ≤ column) (line : List Char) (severity : Severity) :
    ∃ ahead behind, ((m.cut line).underline severity).text = ahead ++ '^' :: behind ∧
      ahead.length = charsBefore line column ∧ '^' ∉ ahead ∧ '^' ∉ behind := by
  have hpointed : (m.cut line).pointed = true := by
    rw [m.pointed_cut, h]
    rfl
  refine ⟨blankFor (m.cut line).ahead ++ wave (m.cut line).before, wave (m.cut line).after,
    ?_, ?_, ?_, caret_notMem_wave _⟩
  · rw [Underlined.text_underline, hpointed]
    rfl
  · rw [List.length_append, length_blankFor, length_wave, length_ahead_cut h hle]
  · exact fun hmem => (List.mem_append.mp hmem).elim (caret_notMem_blankFor _) (caret_notMem_wave _)

/-- Without a pointer there is no caret. -/
theorem Marks.caret_notMem_underline {m : Marks} (h : m.pointer = none) (line : List Char)
    (severity : Severity) : '^' ∉ ((m.cut line).underline severity).text := by
  have hpointed : (m.cut line).pointed = false := by
    rw [m.pointed_cut, h]
    rfl
  rw [Underlined.text_underline, hpointed]
  simp [caret_notMem_blankFor, caret_notMem_wave]

/-! ## 2. Rows -/

/-- A row: with the number of its line, or without one, and what it shows. -/
structure Row where
  number : Option Nat
  body : Painting
deriving DecidableEq, Repr

/-- The rows of one line with the marks it has. -/
def SourceLine.rows (line : SourceLine) (p : Position) (severity : Severity) : List Row :=
  match line.marks? p with
  | some m =>
    let u := m.cut line.text
    [⟨some line.number, u.painting severity⟩, ⟨none, u.underline severity⟩]
  | none => [⟨some line.number, [.bare line.text]⟩]

/-- The lines from `context` ahead of the first that the position meets to `context` behind the
    last; none if it meets none. -/
def shownLines (source : List Char) (p : Position) (context : Nat) : List SourceLine :=
  let all := sourceLines source
  let met := all.filter fun line => (line.marks? p).isSome
  match met.head?, met.getLast? with
  | some first, some last =>
    all.filter fun line => first.number ≤ line.number + context && line.number ≤ last.number + context
  | _, _ => []

section Shown

variable {source : List Char} {p : Position}

/-- The lines shown are lines of the text, in its order. -/
theorem shownLines_sublist (source : List Char) (p : Position) (context : Nat) :
    (shownLines source p context).Sublist (sourceLines source) := by
  unfold shownLines
  dsimp only
  split
  · exact List.filter_sublist
  · exact List.nil_sublist _

/-- Lines in their order have numbers from that of the first to that of the last. -/
theorem number_between {met more others : List SourceLine} {first last line : SourceLine}
    (hordered : met.Pairwise SourceLine.Precedes) (hfirst : met = first :: more)
    (hlast : met = others ++ [last]) (hline : line ∈ met) :
    first.number ≤ line.number ∧ line.number ≤ last.number := by
  constructor
  · rw [hfirst] at hline hordered
    rcases List.mem_cons.mp hline with rfl | hmore
    · exact Nat.le_refl _
    · exact Nat.le_of_lt ((List.pairwise_cons.mp hordered).1 line hmore).number_lt
  · rw [hlast] at hline hordered
    rcases List.mem_append.mp hline with hmore | hmore
    · have hprecedes := (List.pairwise_append.mp hordered).2.2 line hmore last
      exact Nat.le_of_lt (hprecedes (List.mem_singleton_self _)).number_lt
    · cases List.mem_singleton.mp hmore
      exact Nat.le_refl _

/-- **Every line that a position meets is shown.** -/
theorem mem_shownLines {line : SourceLine} (hline : line ∈ sourceLines source)
    (hmeets : line.Meets p) (context : Nat) : line ∈ shownLines source p context := by
  let met := (sourceLines source).filter fun line => (line.marks? p).isSome
  have hmem : line ∈ met := List.mem_filter.mpr ⟨hline, SourceLine.isSome_marks?_iff.mpr hmeets⟩
  have hordered : met.Pairwise SourceLine.Precedes := (pairwise_sourceLines source).filter _
  have hne : met ≠ [] := List.ne_nil_of_mem hmem
  obtain ⟨first, more, hfirst⟩ := List.exists_cons_of_ne_nil hne
  obtain ⟨others, last, hlast⟩ : ∃ others last, met = others ++ [last] :=
    ⟨met.dropLast, met.getLast hne, (List.dropLast_concat_getLast hne).symm⟩
  have hhead : met.head? = some first := by rw [hfirst]; rfl
  have htail : met.getLast? = some last := by rw [hlast, List.getLast?_concat]
  obtain ⟨hfront, hback⟩ := number_between hordered hfirst hlast hmem
  unfold shownLines
  dsimp only
  rw [hhead, htail]
  refine List.mem_filter.mpr ⟨hline, ?_⟩
  rw [Bool.and_eq_true, decide_eq_true_iff, decide_eq_true_iff]
  omega

/-- A position that meets no line has no excerpt. -/
theorem shownLines_eq_nil (h : ∀ line ∈ sourceLines source, ¬ line.Meets p) (context : Nat) :
    shownLines source p context = [] := by
  have hmet : (sourceLines source).filter (fun line => (line.marks? p).isSome) = [] :=
    List.filter_eq_nil_iff.mpr fun line hline hmarks =>
      h line hline (SourceLine.isSome_marks?_iff.mp hmarks)
  unfold shownLines
  dsimp only
  rw [hmet]
  rfl

end Shown

/-- The rows of an excerpt. -/
def excerptRows (source : List Char) (p : Position) (severity : Severity) (context : Nat) : List Row :=
  (shownLines source p context).flatMap fun line => line.rows p severity

/-- The two rows of a marked line among the rows of the lines shown with it. -/
theorem excerptRows_of_rows {source : List Char} {p : Position} {severity : Severity} {context : Nat}
    {line : SourceLine} {linesAbove linesBelow : List SourceLine} {shown underline : Row}
    (hshown : shownLines source p context = linesAbove ++ line :: linesBelow)
    (hrows : line.rows p severity = [shown, underline]) :
    excerptRows source p severity context = linesAbove.flatMap (·.rows p severity) ++
      shown :: underline :: linesBelow.flatMap (·.rows p severity) := by
  rw [excerptRows, hshown, List.flatMap_append, List.flatMap_cons, hrows]
  rfl

/-! ## 3. Print -/

/-- A text brought to a width by spaces in front. -/
def padLeft (width : Nat) (text : List Char) : List Char :=
  List.replicate (width - text.length) ' ' ++ text

/-- The gutter of a row: the number of its line, right-aligned in `width` columns, and a bar. -/
def Row.gutter (width : Nat) (row : Row) : List Char :=
  let number := match row.number with
    | some n => Nat.toDigits 10 n
    | none => []
  [' '] ++ padLeft width number ++ [' ', '|']

/-- A row as it is printed, newline included. -/
def Row.print (color : Bool) (width : Nat) (row : Row) : List Char :=
  let body := row.body.print color
  row.gutter width ++ (if body.isEmpty then [] else ' ' :: body) ++ ['\n']

/-- Without color a row is printed as what it shows, behind its gutter and a space. -/
theorem Row.print_false (row : Row) (width : Nat) : row.print false width = row.gutter width ++
    (if row.body.text.isEmpty then [] else ' ' :: row.body.text) ++ ['\n'] := by
  unfold print
  dsimp only
  rw [Painting.print_false]

theorem Row.caret_notMem_gutter {row : Row} (h : row.number = none) (width : Nat) :
    '^' ∉ row.gutter width := by
  unfold gutter padLeft
  rw [h]
  simp

theorem Row.caret_notMem_print {row : Row} (h : row.number = none) (hbody : '^' ∉ row.body.text)
    (width : Nat) : '^' ∉ row.print false width := by
  rw [row.print_false]
  have hgutter := Row.caret_notMem_gutter h width
  split <;> simp [hgutter, hbody]

/-- The width of the numbers in the gutter: that of the greatest line number of the text. -/
def gutterWidth (source : List Char) : Nat :=
  (Nat.toDigits 10 (lineCount source)).length

end SourceScan
