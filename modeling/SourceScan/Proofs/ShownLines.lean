import SourceScan.Message.Rendered

/-!
# Proofs/ShownLines.lean -- which lines an excerpt shows

The lines that a position marks are found by columns, one line at a time, and the lines shown by the
numbers of the first and the last of them. This file says the same without columns: a line is touched
if a byte of the position is on it, and shown if a touched one is near.

* `SourceLine.Touched`: a byte of the position is on the line; `SourceLine.touched_iff`: such lines are
  those that are marked.
* `FirstTouched`, `exists_firstTouched`: the touched lines follow each other, from the line of the
  position's start on.
* `mem_shownLines_iff`: the lines shown.
* `plainRow`: a row as it is printed without color; `print_rows`: the rows of a line.
* `BarsAligned`: the bar of the gutter stands in one column.
* **`rendered_lines`**: a message is its header, and behind it the lines near a touched one.
-/

namespace SourceScan

open Text

/-! ## 1. Lines that a position touches -/

namespace SourceLine

variable {line : SourceLine} {p : Position}

/-- A byte of the position is on the line, on its newline, or at the end of the text behind it. -/
def Touched (line : SourceLine) (p : Position) : Prop :=
  ∃ offset, p.start ≤ offset ∧ offset < p.stop ∧ line.Holds offset

/-- No more than so many lines apart. -/
def Near (context : Nat) (a b : SourceLine) : Prop :=
  a.number ≤ b.number + context ∧ b.number ≤ a.number + context

theorem start_lt_slotEnd (line : SourceLine) : line.start < line.slotEnd :=
  Nat.lt_succ_of_le (Nat.le_add_right ..)

/-- **The lines touched are those that the position meets.** -/
theorem touched_iff_meets : line.Touched p ↔ line.Meets p := by
  have hslot := line.start_lt_slotEnd
  have hstop : p.stop = p.start + p.length := rfl
  constructor
  · rintro ⟨offset, hle, hlt, hholds⟩
    have hstart := hholds.start_le
    have hend := hholds.lt_slotEnd
    exact ⟨by omega, by omega, by omega⟩
  · rintro ⟨hlength, hstart, hbegin⟩
    exact ⟨max p.start line.start, Nat.le_max_left .., by omega, Nat.le_max_right .., by omega⟩

theorem touched_iff : line.Touched p ↔ (line.marks? p).isSome = true :=
  touched_iff_meets.trans isSome_marks?_iff.symm

instance (line : SourceLine) (p : Position) : Decidable (line.Touched p) :=
  decidable_of_iff _ touched_iff.symm

end SourceLine

section Numbers

variable {number start : Nat}

theorem texts_numberLines (ls : List (List Char)) :
    (numberLines number start ls).map SourceLine.text = ls := by
  induction ls generalizing number start with
  | nil => rfl
  | cons l ls ih => rw [numberLines, List.map_cons, ih]

theorem numbers_numberLines (ls : List (List Char)) :
    (numberLines number start ls).map SourceLine.number = List.range' number ls.length := by
  induction ls generalizing number start with
  | nil => rfl
  | cons l ls ih => rw [numberLines, List.map_cons, ih, List.length_cons, List.range'_succ]

end Numbers

section Touched

variable {source : List Char} {p : Position} {line first : SourceLine}

/-- The lines touched, one behind the other: the position begins on the first of them. -/
structure FirstTouched (source : List Char) (p : Position) (first : SourceLine) : Prop where
  begins : first.Holds p.start
  place : placeAt source p.start = ⟨first.number, p.start - first.start + 1⟩
  consecutive : ∃ above more below, sourceLines source = above ++ first :: more ++ below ∧
    (∀ line ∈ first :: more, line.Touched p) ∧ ∀ line ∈ above ++ below, ¬ line.Touched p

/-- Behind a line that is touched there are others, up to the first that is not: none behind that one
    is. -/
theorem exists_more_touched (h : first.Touched p) {rest : List SourceLine}
    (hordered : (first :: rest).Pairwise SourceLine.Precedes) : ∃ more below, rest = more ++ below ∧
      (∀ line ∈ more, line.Touched p) ∧ ∀ line ∈ below, ¬ line.Touched p := by
  induction rest generalizing first with
  | nil => exact ⟨[], [], rfl, fun _ hline => (List.not_mem_nil hline).elim,
      fun _ hline => (List.not_mem_nil hline).elim⟩
  | cons next rest ih =>
    obtain ⟨hfirst, hordered⟩ := List.pairwise_cons.mp hordered
    by_cases hnext : next.Touched p
    · obtain ⟨more, below, rfl, hmore, hbelow⟩ := ih hnext hordered
      exact ⟨next :: more, below, rfl, List.forall_mem_cons.mpr ⟨hnext, hmore⟩, hbelow⟩
    · refine ⟨[], next :: rest, rfl, fun _ hline => (List.not_mem_nil hline).elim,
        List.forall_mem_cons.mpr ⟨hnext, fun line hline htouched => hnext ?_⟩⟩
      rw [SourceLine.touched_iff_meets] at *
      have hahead := (hfirst next List.mem_cons_self).slotEnd_le
      have hbehind := ((List.pairwise_cons.mp hordered).1 line hline).slotEnd_le
      have hslot := next.start_lt_slotEnd
      have hstart := h.start_lt
      have hstop := htouched.lt_stop
      exact ⟨h.length_pos, by omega, by omega⟩

/-- **A position in a text touches the line it begins on and others behind it without a gap.** -/
theorem exists_firstTouched (hlength : 0 < p.length) (hstart : p.start ≤ width source) :
    ∃ first, FirstTouched source p first := by
  obtain ⟨first, hfirst, hholds, hplace⟩ := exists_line_of_le hstart
  obtain ⟨above, rest, hlines⟩ := List.append_of_mem hfirst
  have htouched : first.Touched p :=
    ⟨p.start, Nat.le_refl _, Nat.lt_add_of_pos_right hlength, hholds⟩
  have hordered := pairwise_sourceLines source
  rw [hlines] at hordered
  obtain ⟨-, hbehind, habove⟩ := List.pairwise_append.mp hordered
  obtain ⟨more, below, rfl, hmore, hbelow⟩ := exists_more_touched htouched hbehind
  refine ⟨first, hholds, hplace, above, more, below, ?_, List.forall_mem_cons.mpr ⟨htouched, hmore⟩,
    List.forall_mem_append.mpr ⟨fun line hline => ?_, hbelow⟩⟩
  · rw [List.append_assoc, List.cons_append, hlines]
  · rintro ⟨offset, hle, -, hoffset⟩
    have hahead := (habove line hline first List.mem_cons_self).slotEnd_le
    have hend := hoffset.lt_slotEnd
    have hbegin := hholds.start_le
    omega

/-- The lines shown, by the numbers of the first and the last line touched. -/
theorem mem_shownLines_of_consecutive {above more below others : List SourceLine}
    {last : SourceLine} (hlines : sourceLines source = above ++ first :: more ++ below)
    (htouched : ∀ line ∈ first :: more, line.Touched p)
    (hnot : ∀ line ∈ above ++ below, ¬ line.Touched p) (hlast : first :: more = others ++ [last])
    (context : Nat) : line ∈ shownLines source p context ↔ line ∈ sourceLines source ∧
      first.number ≤ line.number + context ∧ line.number ≤ last.number + context := by
  obtain ⟨habove, hbelow⟩ := List.forall_mem_append.mp hnot
  have hdropped : ∀ lines : List SourceLine, (∀ line ∈ lines, ¬ line.Touched p) →
      lines.filter (fun line => (line.marks? p).isSome) = [] := fun lines hlines =>
    List.filter_eq_nil_iff.mpr fun line hline => mt SourceLine.touched_iff.mpr (hlines line hline)
  have hmet : (sourceLines source).filter (fun line => (line.marks? p).isSome) = first :: more := by
    rw [hlines, List.filter_append, List.filter_append, hdropped above habove, hdropped below hbelow,
      List.filter_eq_self.mpr fun line hline => SourceLine.touched_iff.mp (htouched line hline),
      List.nil_append, List.append_nil]
  have hgetLast : (first :: more).getLast? = some last := by rw [hlast, List.getLast?_concat]
  unfold shownLines
  dsimp only
  rw [hmet, hgetLast, List.head?_cons]
  dsimp only
  rw [List.mem_filter, Bool.and_eq_true, decide_eq_true_iff, decide_eq_true_iff]

/-- **The lines shown are those near a line that is touched.** -/
theorem mem_shownLines_iff (h : FirstTouched source p first) (context : Nat)
    (hline : line ∈ sourceLines source) : line ∈ shownLines source p context ↔
      ∃ other ∈ sourceLines source, other.Touched p ∧ line.Near context other := by
  obtain ⟨above, more, below, hlines, htouched, hnot⟩ := h.consecutive
  obtain ⟨others, last, hlast⟩ : ∃ others last, first :: more = others ++ [last] :=
    ⟨_, _, (List.dropLast_concat_getLast (List.cons_ne_nil first more)).symm⟩
  have hlastMem : last ∈ first :: more := hlast ▸ List.mem_concat_self
  have hordered := pairwise_sourceLines source
  rw [hlines, List.append_assoc] at hordered
  obtain ⟨-, hbehind, habove⟩ := List.pairwise_append.mp hordered
  obtain ⟨hordered, -, hbelow⟩ := List.pairwise_append.mp hbehind
  have hmem : ∀ {other}, other ∈ first :: more → other ∈ sourceLines source := fun hother =>
    hlines ▸ List.mem_append_left below (List.mem_append_right above hother)
  rw [mem_shownLines_of_consecutive hlines htouched hnot hlast context]
  constructor
  · -- ahead of the touched lines the first of them is near, behind them the last
    rintro ⟨hline, hafter, hbefore⟩
    rw [hlines] at hline
    rcases List.mem_append.mp hline with hline | hline
    · rcases List.mem_append.mp hline with hline | hline
      · have hahead := (habove line hline first List.mem_cons_self).number_lt
        exact ⟨first, hmem List.mem_cons_self, htouched first List.mem_cons_self, by omega, hafter⟩
      · exact ⟨line, hmem hline, htouched line hline, Nat.le_add_right .., Nat.le_add_right ..⟩
    · have hahead := (hbelow last hlastMem line hline).number_lt
      exact ⟨last, hmem hlastMem, htouched last hlastMem, hbefore, by omega⟩
  · rintro ⟨other, hother, hothertouched, hafter, hbefore⟩
    have hmiddle : other ∈ first :: more := by
      rw [hlines, List.append_assoc] at hother
      rcases List.mem_append.mp hother with hother | hother
      · exact absurd hothertouched (hnot other (List.mem_append_left below hother))
      · refine (List.mem_append.mp hother).resolve_right fun hother => ?_
        exact hnot other (List.mem_append_right above hother) hothertouched
    obtain ⟨hfront, hback⟩ := number_between hordered rfl hlast hmiddle
    exact ⟨hline, by omega, by omega⟩

end Touched

/-! ## 2. Rows as they are printed -/

/-- A row without color: its gutter, and its text behind a space if there is any. -/
def plainRow (width : Nat) (number : Option Nat) (text : List Char) : List Char :=
  Row.gutter width ⟨number, []⟩ ++ (if text.isEmpty then [] else ' ' :: text) ++ ['\n']

theorem Row.print_eq_plainRow (row : Row) (width : Nat) :
    row.print false width = plainRow width row.number row.body.text :=
  row.print_false width

/-- A gutter has spaces, the digits of a number, and the bar. -/
theorem Row.mem_gutter {row : Row} {width : Nat} {c : Char} (h : c ∈ row.gutter width) :
    c = ' ' ∨ c = '|' ∨ c.isDigit = true := by
  have hdigits : ∀ n, c ∈ Nat.toDigits 10 n → c.isDigit = true := fun _ =>
    Nat.isDigit_of_mem_toDigits (by decide) (by decide)
  unfold gutter padLeft at h
  dsimp only at h
  split at h <;> simp only [List.mem_append, List.mem_cons, List.mem_replicate, List.not_mem_nil] at h
  · grind
  · grind

/-- What stands below a line that is marked. -/
def SourceLine.underline (line : SourceLine) (p : Position) (severity : Severity) : List Char :=
  match line.marks? p with
  | some m => ((m.cut line.text).underline severity).text
  | none => []

/-- An underline has no newline: it is one row. -/
theorem SourceLine.mem_underline {line : SourceLine} {p : Position} {severity : Severity} {c : Char}
    (h : c ∈ line.underline p severity) : c ∈ [' ', '\t', '~', '^'] := by
  have hblank : ∀ text, c ∈ blankFor text → c ∈ [' ', '\t', '~', '^'] := by
    intro text hc
    obtain ⟨d, -, rfl⟩ := List.mem_map.mp hc
    split <;> decide
  have hwave : ∀ text, c ∈ wave text → c ∈ [' ', '\t', '~', '^'] := by
    intro text hc
    cases List.eq_of_mem_replicate hc
    decide
  have hcaret : ∀ pointed : Bool, c ∈ (if pointed then ['^'] else []) →
      c ∈ [' ', '\t', '~', '^'] := by
    intro pointed hc
    cases pointed with
    | false => cases hc
    | true =>
      cases List.mem_singleton.mp hc
      decide
  unfold underline at h
  split at h
  · rw [Underlined.text_underline, List.mem_append, List.mem_append, List.mem_append] at h
    rcases h with (hc | hc) | hc | hc
    · exact hblank _ hc
    · exact hwave _ hc
    · exact hcaret _ hc
    · exact hwave _ hc
  · cases h

/-- A line that is touched has two rows: it is printed as it is, with an underline. -/
theorem rows_of_touched {line : SourceLine} {p : Position} (h : line.Touched p)
    (severity : Severity) (width : Nat) : ∃ shown underline,
      line.rows p severity = [shown, underline] ∧
      shown.print false width = plainRow width (some line.number) line.text ∧
      underline.print false width = plainRow width none (line.underline p severity) := by
  obtain ⟨m, hm⟩ := Option.isSome_iff_exists.mp (SourceLine.touched_iff.mp h)
  unfold SourceLine.rows SourceLine.underline
  rw [hm]
  refine ⟨_, _, rfl, ?_, Row.print_eq_plainRow ..⟩
  rw [Row.print_eq_plainRow, Marks.text_painting_cut]

/-- Any other line has one. -/
theorem rows_of_not_touched {line : SourceLine} {p : Position} (h : ¬ line.Touched p)
    (severity : Severity) (width : Nat) : ∃ shown, line.rows p severity = [shown] ∧
      shown.print false width = plainRow width (some line.number) line.text := by
  have hm : line.marks? p = none := Option.not_isSome_iff_eq_none.mp (mt SourceLine.touched_iff.mpr h)
  unfold SourceLine.rows
  rw [hm]
  refine ⟨_, rfl, ?_⟩
  rw [Row.print_eq_plainRow]
  exact congrArg (plainRow width _) (List.append_nil line.text)

/-- **A line is printed as it is**, with an underline if it is touched. -/
theorem print_rows (line : SourceLine) (p : Position) (severity : Severity) (width : Nat) :
    (line.rows p severity).flatMap (Row.print false width) =
      plainRow width (some line.number) line.text ++
        if line.Touched p then plainRow width none (line.underline p severity) else [] := by
  by_cases h : line.Touched p
  · obtain ⟨shown, underline, hrows, hshown, hunderline⟩ := rows_of_touched h severity width
    rw [if_pos h, hrows, List.flatMap_cons, List.flatMap_singleton, hshown, hunderline]
  · obtain ⟨shown, hrows, hshown⟩ := rows_of_not_touched h severity width
    rw [if_neg h, hrows, List.flatMap_singleton, hshown, List.append_nil]

/-- A greater number does not have fewer digits. -/
theorem length_toDigits_le {n m : Nat} (h : n ≤ m) :
    (Nat.toDigits 10 n).length ≤ (Nat.toDigits 10 m).length := by
  have hlt : m < 10 ^ (Nat.toDigits 10 m).length :=
    (Nat.length_toDigits_le_iff (by decide) Nat.length_toDigits_pos).mp (Nat.le_refl _)
  exact (Nat.length_toDigits_le_iff (by decide) Nat.length_toDigits_pos).mpr (Nat.lt_of_le_of_lt h hlt)

theorem length_padLeft {width : Nat} {text : List Char} (h : text.length ≤ width) :
    (padLeft width text).length = width := by
  rw [padLeft, List.length_append, List.length_replicate, Nat.sub_add_cancel h]

theorem bar_notMem_padLeft {text : List Char} (h : ∀ c ∈ text, c.isDigit = true) (width : Nat) :
    '|' ∉ padLeft width text := by
  intro hmem
  rcases List.mem_append.mp hmem with hmem | hmem
  · cases List.eq_of_mem_replicate hmem
  · exact absurd (h _ hmem) (by decide)

/-- The bar of the gutter stands in one column, in the rows without a number and in those of all
    numbers that the lines of the text have. -/
def BarsAligned (source : List Char) : Prop :=
  ∀ number : Option Nat, (∀ n ∈ number, n ≤ lineCount source) → ∀ text, ∃ ahead behind,
    plainRow (gutterWidth source) number text = ahead ++ '|' :: behind ∧ '|' ∉ ahead ∧
      ahead.length = gutterWidth source + 2

/-- **The rows of an excerpt have their bars aligned.** -/
theorem barsAligned (source : List Char) : BarsAligned source := by
  intro number h text
  obtain ⟨digits, hgutter, hlength, hdigits⟩ : ∃ digits,
      Row.gutter (gutterWidth source) ⟨number, []⟩ =
        [' '] ++ padLeft (gutterWidth source) digits ++ [' ', '|'] ∧
      digits.length ≤ gutterWidth source ∧ ∀ c ∈ digits, c.isDigit = true := by
    cases number with
    | none => exact ⟨[], rfl, Nat.zero_le _, fun _ hc => absurd hc List.not_mem_nil⟩
    | some n => exact ⟨Nat.toDigits 10 n, rfl, length_toDigits_le (h n rfl), fun _ =>
        Nat.isDigit_of_mem_toDigits (by decide) (by decide)⟩
  refine ⟨[' '] ++ padLeft (gutterWidth source) digits ++ [' '],
    (if text.isEmpty then [] else ' ' :: text) ++ ['\n'], ?_, ?_, ?_⟩
  · rw [plainRow, hgutter]
    simp
  · simp [bar_notMem_padLeft hdigits]
  · rw [List.length_append, List.length_append, length_padLeft hlength]
    simp only [List.length_singleton]
    omega

/-! ## 3. Messages -/

/-- The lines of a text that are near one that a position touches, in their order. -/
structure LinesNear (source : List Char) (p : Position) (context : Nat) (shown : List SourceLine) :
    Prop where
  ordered : shown.Sublist (sourceLines source)
  mem_iff : ∀ line ∈ sourceLines source, line ∈ shown ↔
    ∃ other ∈ sourceLines source, other.Touched p ∧ line.Near context other

/-- The lines of a text, numbered. -/
structure Numbered (source : List Char) : Prop where
  texts : (sourceLines source).map SourceLine.text = lines source
  numbers : (sourceLines source).map SourceLine.number = List.range' 1 (lineCount source)
  stand : ∀ line ∈ sourceLines source, line.StandsIn source

theorem numbered_sourceLines (source : List Char) : Numbered source where
  texts := texts_numberLines _
  numbers := by rw [sourceLines, numbers_numberLines, length_lines]
  stand := fun _ => standsIn_of_mem_sourceLines

/-- A message is printed as its header and the lines near a touched one, each of them once, in order
    and as it is, with one row below it if it is touched itself. The touched lines follow each other
    from the line that the header gives. -/
def Message.ShowsLines (m : Message) (name : String) (source : List Char) (context : Nat) : Prop :=
  ∃ shown first, ∃ underline : SourceLine → List Char,
    LinesNear source m.position context shown ∧ FirstTouched source m.position first ∧
    (∀ line, '\n' ∉ underline line) ∧
    m.rendered name source ⟨false, context⟩ =
      locator name ⟨first.number, m.position.start - first.start + 1⟩ ++ [':', ' '] ++
        m.severity.name.toList ++ [':', ' '] ++ m.text.toList ++ ['\n'] ++
        shown.flatMap fun line => plainRow (gutterWidth source) (some line.number) line.text ++
          if line.Touched m.position then plainRow (gutterWidth source) none (underline line)
          else []

/-- **A message about something in its text shows the lines near those that it touches**, by their
    numbers and as they are, behind a bar that stands in one column. -/
theorem rendered_lines {m : Message} {source : List Char} (hlength : 0 < m.position.length)
    (hstart : m.position.start ≤ width source) (name : String) (context : Nat) :
    Numbered source ∧ m.ShowsLines name source context ∧ BarsAligned source := by
  obtain ⟨first, hfirst⟩ := exists_firstTouched hlength hstart
  refine ⟨numbered_sourceLines source, ⟨shownLines source m.position context, first,
    fun line => line.underline m.position m.severity,
    ⟨shownLines_sublist source m.position context, fun _ => mem_shownLines_iff hfirst context⟩,
    hfirst, fun line hmem => ?_, ?_⟩, barsAligned source⟩
  · exact absurd (SourceLine.mem_underline hmem) (by decide)
  · have hexcerpt : m.printedExcerpt source ⟨false, context⟩ =
        (shownLines source m.position context).flatMap fun line =>
          (line.rows m.position m.severity).flatMap (Row.print false (gutterWidth source)) :=
      List.flatMap_assoc
    unfold Message.rendered Message.header
    rw [hexcerpt, Painting.print_false, hfirst.place]
    simp only [print_rows]
    simp [Painting.text, Stroke.bare, Stroke.styled]

/-- A position from an empty line on, past the end of the text. -/
theorem rendered_lines_past_the_end :
    (0 < (Position.clamped 2 9 0).length ∧
      (Position.clamped 2 9 0).start ≤ width "a\n\nbé".toList) ∧
    Numbered "a\n\nbé".toList ∧
      Message.ShowsLines ⟨"span", .error, .clamped 2 9 0⟩ "t" "a\n\nbé".toList 1 ∧
      BarsAligned "a\n\nbé".toList := by
  have hbounds : 0 < (Position.clamped 2 9 0).length ∧
      (Position.clamped 2 9 0).start ≤ width "a\n\nbé".toList := by decide +kernel
  exact ⟨hbounds, @rendered_lines ⟨"span", .error, .clamped 2 9 0⟩ _ hbounds.1 hbounds.2 "t" 1⟩

end SourceScan
