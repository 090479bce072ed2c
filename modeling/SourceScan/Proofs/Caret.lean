import SourceScan.Proofs.Pointing
import SourceScan.SourceUnit

/-!
# Proofs/Caret.lean -- the one caret of an excerpt

Each line that a position meets decides for itself whether the pointer falls on it. All the same the
underlines of an excerpt hold one caret, no fewer and no more, since each line decides whether one
and the same offset is on it, and every offset of a text is on one line.

* `Position.caretOffset`: that offset. It is the pointer's, but for a pointer behind the text and for
  one behind a newline that ends the position.
* `carriesPointer_iff`: the line the pointer falls on is the one with that offset.
* `Message.DrawnAt`: a message is drawn with one caret, below the character at an offset.
* **`oneCaret_of_rendered`**: every message that has an excerpt is drawn so, and those of a pass have
  their caret at the pointer.
-/

namespace SourceScan

open Text

/-! ## 1. The line with the pointer -/

/-- The offset that the caret stands for: the pointer's, or the end of the text if that is farther
    on. A pointer behind a newline that ends the position stands for the newline. -/
def Position.caretOffset (p : Position) (source : List Char) : Nat :=
  if p.pointer = p.length ∧ charAt? source (p.stop - 1) = some '\n' then p.stop - 1
  else min p.target (width source)

section Lines

variable {source : List Char} {p : Position} {line : SourceLine}

theorem caretOffset_le (p : Position) (source : List Char) : p.caretOffset source ≤ width source := by
  unfold Position.caretOffset
  split
  case isTrue h => exact Nat.le_of_lt (lt_width_of_charAt? h.2)
  case isFalse => exact Nat.min_le_right ..

/-- The caret of a message that points into its text stands for the offset of its pointer. -/
theorem caretOffset_of_pointsInto {m : Message} (h : m.PointsInto source) :
    m.position.caretOffset source = m.position.target := by
  unfold Position.caretOffset
  rw [if_neg fun hend => absurd hend.1 (Nat.ne_of_lt h.pointer_lt), Nat.min_eq_left h.target_le]

theorem start_le_caretOffset (hlength : 0 < p.length) (hstart : p.start ≤ width source) :
    p.start ≤ p.caretOffset source := by
  unfold Position.caretOffset
  split
  case isTrue => exact Nat.le_sub_one_of_lt (Nat.lt_add_of_pos_right hlength)
  case isFalse => exact Nat.le_min.mpr ⟨Nat.le_add_right .., hstart⟩

/-- **A position meets the line of its caret.** -/
theorem meets_of_caretOffset (hline : line.StandsIn source) (hlength : 0 < p.length)
    (hstart : p.start ≤ width source) (hholds : line.Holds (p.caretOffset source)) :
    line.Meets p := by
  obtain ⟨hle, hlt⟩ := hholds
  have hstop : p.stop = p.start + p.length := rfl
  have htarget : p.target = p.start + p.pointer := rfl
  have hpointer := p.pointer_le
  refine ⟨hlength, Nat.lt_of_le_of_lt (start_le_caretOffset hlength hstart) hlt, ?_⟩
  unfold Position.caretOffset at hle
  split at hle
  case isTrue => omega
  case isFalse h =>
    refine Nat.lt_of_not_le fun hbehind => h ?_
    -- The line would begin where the position stops, behind the newline of the line ahead.
    have hnewline := hline.charAt?_start (by omega)
    exact ⟨by omega, show p.stop = line.start by omega ▸ hnewline⟩

/-- **The pointer of a position falls on the line that holds the caret's offset**, among the lines
    the position meets. -/
theorem carriesPointer_iff (hline : line.StandsIn source) (hmeets : line.Meets p) :
    line.carriesPointer p = true ↔ line.Holds (p.caretOffset source) := by
  have hstop : p.stop = p.start + p.length := rfl
  have htarget : p.target = p.start + p.pointer := rfl
  have hpointer := p.pointer_le
  have hslot : line.start < line.slotEnd := by
    unfold SourceLine.slotEnd
    omega
  obtain ⟨hlength, hstart, hbegin⟩ := hmeets
  rw [SourceLine.holds_iff]
  unfold Position.caretOffset
  by_cases hlast : line.isLast = true
  · have hend := hline.slotEnd_of_isLast hlast
    have hcarries : line.carriesPointer p = true ↔ line.start ≤ p.target := by
      simp [SourceLine.carriesPointer, hlast]
    rw [hcarries]
    split
    case isTrue h =>
      have hinside := lt_width_of_charAt? h.2
      omega
    case isFalse => omega
  · obtain ⟨hinside, hnewline⟩ := hline.charAt?_slotEnd hlast
    have hcarries : line.carriesPointer p = true ↔
        line.start ≤ p.target ∧ (p.target < line.slotEnd ∨ p.stop ≤ line.slotEnd) := by
      simp [SourceLine.carriesPointer, hlast]
    rw [hcarries]
    split
    case isTrue => omega
    case isFalse h =>
      -- A pointer at the stop of a position that ends with this line's newline is the other case.
      have hother : ¬ (p.pointer = p.length ∧ p.stop = line.slotEnd) :=
        fun heq => h ⟨heq.1, heq.2 ▸ hnewline⟩
      omega

/-- The column of the pointer on that line is the one of the caret. -/
theorem pointerColumn_eq (hline : line.StandsIn source) (hmeets : line.Meets p)
    (hholds : line.Holds (p.caretOffset source)) :
    line.pointerColumn p = p.caretOffset source - line.start := by
  have hstop : p.stop = p.start + p.length := rfl
  have htarget : p.target = p.start + p.pointer := rfl
  have hslot : line.slotEnd = line.start + width line.text + 1 := rfl
  have hstart := hmeets.lt_stop
  unfold SourceLine.pointerColumn
  unfold Position.caretOffset at hholds ⊢
  split at hholds
  case isTrue h =>
    rw [if_pos h]
    have hnewline := hline.slotEnd_of_newline h.2 hholds
    omega
  case isFalse h =>
    rw [if_neg h]
    obtain ⟨hle, hlt⟩ := hholds
    by_cases hlast : line.isLast = true
    · have hend := hline.slotEnd_of_isLast hlast
      omega
    · have hinside := (hline.charAt?_slotEnd hlast).1
      omega

end Lines

/-! ## 2. The caret of an excerpt -/

/-- A row that is printed with one caret, `index` characters behind its gutter and one space. -/
def Row.HasCaret (row : Row) (gutter index : Nat) : Prop :=
  ∃ ahead behind,
    row.print false gutter = row.gutter gutter ++ ' ' :: (ahead ++ '^' :: behind) ++ ['\n'] ∧
      ahead.length = index ∧ '^' ∉ row.gutter gutter ∧ '^' ∉ ahead ∧ '^' ∉ behind

/-- Rows of an excerpt with one caret below their lines: it is below `line`, the line of `offset`,
    as many characters in as end there at or before the offset. -/
structure Row.OneCaret (source : List Char) (offset : Nat) (line : List Char) (above : List Row)
    (shown underline : Row) (below : List Row) : Prop where
  line_eq : (lines source)[(placeAt source offset).line - 1]? = some line
  shown_number : shown.number = some (placeAt source offset).line
  shown_text : shown.body.text = line
  underline_number : underline.number = none
  caret : underline.HasCaret (gutterWidth source)
    (charsBefore line ((placeAt source offset).column - 1))
  caret_end : offset = width source ∨ charAt? source offset = some '\n' →
    charsBefore line ((placeAt source offset).column - 1) = line.length
  no_other : ∀ row ∈ above ++ below, row.number = none → '^' ∉ row.print false (gutterWidth source)

/-- A message is drawn with one caret, for byte `offset` of its text. -/
def Message.DrawnAt (m : Message) (name : String) (source : List Char) (context offset : Nat) :
    Prop :=
  ∃ line above shown underline below,
    excerptRows source m.position m.severity context = above ++ shown :: underline :: below ∧
      m.rendered name source ⟨false, context⟩ = (m.header name source).text ++ ['\n'] ++
        (above ++ shown :: underline :: below).flatMap (Row.print false (gutterWidth source)) ∧
      Row.OneCaret source offset line above shown underline below

section Rows

variable {source : List Char} {p : Position} {line : SourceLine} {severity : Severity}

/-- A line that does not hold the caret's offset has no caret below it. -/
theorem caret_notMem_of_rows (hline : line.StandsIn source)
    (haway : ¬ line.Holds (p.caretOffset source)) {row : Row} (hrow : row ∈ line.rows p severity)
    (hnumber : row.number = none) (gutter : Nat) : '^' ∉ row.print false gutter := by
  unfold SourceLine.rows at hrow
  cases hm : line.marks? p with
  | none =>
    rw [hm] at hrow
    cases List.mem_singleton.mp hrow
    cases hnumber
  | some m =>
    have hmeets : line.Meets p := SourceLine.isSome_marks?_iff.mp (hm ▸ rfl)
    have hpointer : m.pointer = none := by
      rw [SourceLine.marks?_of_meets hmeets, if_neg (mt (carriesPointer_iff hline hmeets).mp haway)]
        at hm
      cases hm
      rfl
    rw [hm] at hrow
    rcases List.mem_cons.mp hrow with rfl | hrow
    · cases hnumber
    · cases List.mem_singleton.mp hrow
      exact Row.caret_notMem_print rfl (Marks.caret_notMem_underline hpointer _ _) gutter

/-- The line that holds the caret's offset is shown with the caret below it. -/
theorem hasCaret_of_rows (hline : line.StandsIn source) (hmeets : line.Meets p)
    (hholds : line.Holds (p.caretOffset source)) (gutter : Nat) :
    ∃ shown underline, line.rows p severity = [shown, underline] ∧
      shown.number = some line.number ∧ shown.body.text = line.text ∧ underline.number = none ∧
        underline.HasCaret gutter (charsBefore line.text (p.caretOffset source - line.start)) := by
  obtain ⟨m, hm, hstart, hpointer⟩ : ∃ m, line.marks? p = some m ∧
      m.start = p.start - line.start ∧ m.pointer = some (p.caretOffset source - line.start) := by
    refine ⟨_, SourceLine.marks?_of_meets hmeets, rfl, ?_⟩
    rw [if_pos ((carriesPointer_iff hline hmeets).mpr hholds), pointerColumn_eq hline hmeets hholds]
  have hcolumn : m.start ≤ p.caretOffset source - line.start := by
    have hinside : p.start ≤ width source :=
      Nat.le_of_lt_succ (Nat.lt_of_lt_of_le hmeets.start_lt hline.slotEnd_le)
    rw [hstart]
    exact Nat.sub_le_sub_right (start_le_caretOffset hmeets.length_pos hinside) _
  obtain ⟨ahead, behind, htext, hlength, hahead, hbehind⟩ :=
    Marks.text_underline_of_pointer hpointer hcolumn line.text severity
  unfold SourceLine.rows
  rw [hm]
  refine ⟨_, _, rfl, rfl, Marks.text_painting_cut .., rfl, ahead, behind, ?_, hlength,
    Row.caret_notMem_gutter rfl gutter, hahead, hbehind⟩
  rw [Row.print_false, htext]
  simp

/-- At the newline of a line, or at the end of the text, all characters of the line have ended. -/
theorem charsBefore_of_ends (hline : line.StandsIn source) {offset : Nat}
    (hholds : line.Holds offset)
    (hends : offset = width source ∨ charAt? source offset = some '\n') :
    charsBefore line.text (offset - line.start) = line.text.length := by
  have hslot : line.slotEnd = line.start + width line.text + 1 := rfl
  have hend : offset + 1 = line.slotEnd := by
    rcases hends with hend | hnewline
    · have hslotEnd := hline.slotEnd_le
      have hlt := hholds.lt_slotEnd
      omega
    · exact hline.slotEnd_of_newline hnewline hholds
  rw [show offset - line.start = width line.text by omega, charsBefore_width]

end Rows

section Messages

variable {m : Message} {source : List Char}

theorem rendered_eq (m : Message) (name : String) (source : List Char) (context : Nat) :
    m.rendered name source ⟨false, context⟩ = (m.header name source).text ++ ['\n'] ++
      (excerptRows source m.position m.severity context).flatMap
        (Row.print false (gutterWidth source)) := by
  unfold Message.rendered Message.printedExcerpt
  rw [Painting.print_false]

/-- A message about nothing in its text is a header alone. -/
theorem rendered_of_away (h : m.position.length = 0 ∨ width source < m.position.start)
    (name : String) (context : Nat) :
    m.rendered name source ⟨false, context⟩ = (m.header name source).text ++ ['\n'] := by
  have haway : ∀ line ∈ sourceLines source, ¬ line.Meets m.position := by
    intro line hline hmeets
    have hstart := hmeets.start_lt
    have hlength := hmeets.length_pos
    have hend := (standsIn_of_mem_sourceLines hline).slotEnd_le
    omega
  rw [rendered_eq, excerptRows, shownLines_eq_nil haway context, List.flatMap_nil, List.flatMap_nil,
    List.append_nil]

/-- **A message about something in its text is drawn with one caret.** -/
theorem drawnAt_caretOffset (hlength : 0 < m.position.length)
    (hstart : m.position.start ≤ width source) (name : String) (context : Nat) :
    m.DrawnAt name source context (m.position.caretOffset source) := by
  obtain ⟨line, hline, hholds, hplace⟩ := exists_line_of_le (caretOffset_le m.position source)
  have hstands := standsIn_of_mem_sourceLines hline
  have hmeets := meets_of_caretOffset hstands hlength hstart hholds
  obtain ⟨linesAbove, linesBelow, hshown⟩ :=
    List.append_of_mem (mem_shownLines hline hmeets context)
  obtain ⟨shown, underline, hrows, hnumber, htext, hunderline, hcaret⟩ :=
    hasCaret_of_rows hstands hmeets hholds (gutterWidth source)
  have hsublist := shownLines_sublist source m.position context
  have hordered := (pairwise_sourceLines source).sublist hsublist
  rw [hshown] at hsublist hordered
  have hexcerpt := excerptRows_of_rows hshown hrows
  refine ⟨line.text, linesAbove.flatMap (·.rows m.position m.severity), shown, underline,
    linesBelow.flatMap (·.rows m.position m.severity), hexcerpt, hexcerpt ▸ rendered_eq .., {
      line_eq := ?_
      shown_number := ?_
      shown_text := htext
      underline_number := hunderline
      caret := ?_
      caret_end := ?_
      no_other := ?_ }⟩
  · rw [hplace]
    exact getElem?_of_mem_sourceLines hline
  · rw [hplace]
    exact hnumber
  · rw [hplace, Nat.add_sub_cancel]
    exact hcaret
  · rw [hplace, Nat.add_sub_cancel]
    exact charsBefore_of_ends hstands hholds
  · intro row hrow hnone
    rw [← List.flatMap_append] at hrow
    obtain ⟨other, hother, hrow⟩ := List.mem_flatMap.mp hrow
    have hmem : other ∈ linesAbove ++ line :: linesBelow :=
      ((List.sublist_cons_self line linesBelow).append_left linesAbove).subset hother
    exact caret_notMem_of_rows (standsIn_of_mem_sourceLines (hsublist.subset hmem))
      (not_holds_of_pairwise hordered hholds hother) hrow hnone _

end Messages

/-- **The excerpt of a message has exactly one caret, at the offset it stands for**; a message without
    an excerpt is a header alone; and a message of a pass has its caret at the pointer. -/
theorem oneCaret_of_rendered (name : String) (source : String) (context : Nat) :
    (∀ m : Message,
      (m.position.length = 0 ∨ width source.toList < m.position.start →
        m.rendered name source.toList ⟨false, context⟩ =
          (m.header name source.toList).text ++ ['\n']) ∧
      (0 < m.position.length → m.position.start ≤ width source.toList →
        m.DrawnAt name source.toList context (m.position.caretOffset source.toList))) ∧
    ∀ m ∈ (SourceUnit.ofSource name source).messages,
      m.DrawnAt name source.toList context m.position.target := by
  refine ⟨fun m => ⟨fun h => rendered_of_away h name context,
    fun hlength hstart => drawnAt_caretOffset hlength hstart name context⟩, fun m hm => ?_⟩
  have hadded : (tokenize source.toList .empty).1.messages =
      Log.empty.messages ++ (SourceUnit.ofSource name source).messages := (List.nil_append _).symm
  have hinto := pointsInto_of_pointsAt (pointsAt_of_tokenize hadded hm)
  have hcaret : m.position.caretOffset source.toList = m.position.target := by
    unfold Position.caretOffset
    rw [if_neg fun h => absurd h.1 (Nat.ne_of_lt hinto.pointer_lt), Nat.min_eq_left hinto.target_le]
  rw [← hcaret]
  exact drawnAt_caretOffset hinto.length_pos (Nat.le_of_lt hinto.start_lt) name context

/-- The pointer behind `abc` and its newline is drawn below the end of `abc`; that of a literal that
    is not closed, below the end of the text. -/
theorem oneCaret_of_rendered_newline :
    (0 < (Position.clamped 0 4 4).length ∧ (Position.clamped 0 4 4).start ≤ width "abc\nd".toList) ∧
      Message.DrawnAt ⟨"unexpected EOF", .error, .clamped 0 4 4⟩ "t" "abc\nd".toList 1 3 ∧
      (SourceUnit.ofSource "t" "\"a").messages = [⟨"unexpected EOF", .error, .clamped 0 3 2⟩] ∧
      Message.DrawnAt ⟨"unexpected EOF", .error, .clamped 0 3 2⟩ "t" "\"a".toList 0 2 := by
  have hbounds : 0 < (Position.clamped 0 4 4).length ∧
      (Position.clamped 0 4 4).start ≤ width "abc\nd".toList := by decide +kernel
  have hoffset : (Position.clamped 0 4 4).caretOffset "abc\nd".toList = 3 := by decide +kernel
  have hmessages : (SourceUnit.ofSource "t" "\"a").messages =
      [⟨"unexpected EOF", .error, .clamped 0 3 2⟩] := by decide +kernel
  refine ⟨hbounds, ?_, hmessages, ?_⟩
  · have hdrawn := ((oneCaret_of_rendered "t" "abc\nd" 1).1
      ⟨"unexpected EOF", .error, .clamped 0 4 4⟩).2 hbounds.1 hbounds.2
    rwa [hoffset] at hdrawn
  · refine (oneCaret_of_rendered "t" "\"a" 0).2 ⟨"unexpected EOF", .error, .clamped 0 3 2⟩ ?_
    rw [hmessages]
    exact List.mem_singleton_self _

end SourceScan
