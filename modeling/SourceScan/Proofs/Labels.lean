import SourceScan.Message.Labels
import SourceScan.Proofs.Caret
import SourceScan.Text.Checked

/-!
# Proofs/Labels.lean -- a report and a rendering show one place

A report cuts a position to the whole text, a rendering line by line. Whatever the position, the
report stays inside the text with its pointer inside its stretch. For a message of a pass nothing is
cut but the one byte that may be missing at the end, and both show one place: the label `here` is at
the offset of the caret, on the line below which the caret is drawn and in the column where the
character above the caret begins.

* `Report.Inside`: a report inside its text; `Report.inside`: each of them is.
* `width_ahead_of_place`: the column of an offset between characters is what the characters ahead of
  it on its line take.
* `Message.ShownAlike`: a message whose report and rendering show one place.
* **`report_shownAlike`**: every message of a pass is shown alike.
-/

namespace SourceScan

open Text

/-! ## 1. Reports -/

/-- A report inside its text: its stretch ends there, its pointer is in the stretch or at its end,
    and so are its labels, of which the first is the one at the pointer. -/
structure Report.Inside (r : Report) (source : List Char) : Prop where
  stop_le : r.start + r.length ≤ width source
  start_le_target : r.start ≤ r.target
  target_le_stop : r.target ≤ r.start + r.length
  here : r.labels.head? = some ⟨some "here", r.target, 0⟩
  labels_within : ∀ label ∈ r.labels,
    r.start ≤ label.start ∧ label.start + label.length ≤ r.start + r.length

/-- **The report of a message is inside its text**, whatever the message points at. -/
theorem Report.inside (m : Message) (source : List Char) : (m.report source).Inside source := by
  have hpointer := m.position.pointer_le
  have hstop := Report.start_add_length_le m source
  have hbegin : (m.report source).start ≤ (m.report source).target := by
    simp only [Message.report, Position.target]
    omega
  have hend : (m.report source).target ≤ (m.report source).start + (m.report source).length := by
    simp only [Message.report, Position.target]
    omega
  refine ⟨hstop, hbegin, hend, rfl, fun label hlabel => ?_⟩
  rcases List.mem_cons.mp hlabel with rfl | hlabel
  · exact ⟨hbegin, hend⟩
  · split at hlabel
    · cases List.mem_singleton.mp hlabel
      exact ⟨Nat.le_refl _, Nat.le_refl _⟩
    · cases hlabel

/-! ## 2. Reports and renderings -/

/-- A message whose report and rendering show one place: the report is cut by no more than the one
    byte that may be missing at the end of the text, the caret is at the report's pointer, and the
    column of the pointer is where the character above the caret begins on its line. -/
structure Message.ShownAlike (m : Message) (source : List Char) : Prop where
  start_eq : (m.report source).start = m.position.start
  target_eq : (m.report source).target = m.position.target
  stop_eq : m.position.stop ≠ width source + 1 →
    (m.report source).start + (m.report source).length = m.position.stop
  stop_cut : m.position.stop = width source + 1 →
    (m.report source).start + (m.report source).length = width source
  drawn : ∀ name context, m.DrawnAt name source context (m.report source).target
  column_eq : let place := placeAt source (m.report source).target
    ∀ line ∈ (lines source)[place.line - 1]?,
      width (line.take (charsBefore line (place.column - 1))) = place.column - 1

/-- On the line of an offset between characters, the characters ahead of the offset take the columns
    ahead of it. -/
theorem width_ahead_of_place {source : List Char} {offset : Nat} (h : IsBoundary source offset)
    {line : List Char} (hline : line ∈ (lines source)[(placeAt source offset).line - 1]?) :
    width (line.take (charsBefore line ((placeAt source offset).column - 1))) =
      (placeAt source offset).column - 1 := by
  obtain ⟨held, hmem, hholds, hplace⟩ := exists_line_of_le h.1
  rw [hplace] at hline ⊢
  obtain rfl : held.text = line :=
    Option.some.inj ((getElem?_of_mem_sourceLines hmem).symm.trans hline)
  rw [Nat.add_sub_cancel]
  have hstands := standsIn_of_mem_sourceLines hmem
  exact width_take_charsBefore held.text (hstands.isBoundary_text hholds h)

/-- A message that points into its text is shown alike. -/
theorem shownAlike_of_pointsInto {m : Message} {source : List Char} (h : m.PointsInto source) :
    m.ShownAlike source := by
  have hstart := h.start_lt
  have hstop := h.stop_le
  have hstopEq : m.position.stop = m.position.start + m.position.length := rfl
  have htarget : (m.report source).target = m.position.target := Nat.min_eq_left h.target_le
  have hdrawn := drawnAt_caretOffset (m := m) h.length_pos (Nat.le_of_lt hstart)
  rw [caretOffset_of_pointsInto h] at hdrawn
  have hbegin : (m.report source).start = m.position.start := Nat.min_eq_left (Nat.le_of_lt hstart)
  refine ⟨hbegin, htarget, fun hinside => ?_, fun hpast => ?_, ?_, ?_⟩
  · simp only [Message.report]
    omega
  · simp only [Message.report]
    omega
  · rwa [htarget]
  · rw [htarget]
    exact fun line => width_ahead_of_place h.target_boundary

/-- **Every report is inside its text, and every message of a pass is shown alike** by its report
    and its rendering. -/
theorem report_shownAlike (source : List Char) (m : Message) :
    (m.report source).Inside source ∧
      ∀ (log : Log) (added : List Message),
        (tokenize source log).1.messages = log.messages ++ added → m ∈ added →
          m.ShownAlike source := by
  refine ⟨Report.inside m source, fun log added hadded hm => ?_⟩
  exact shownAlike_of_pointsInto (pointsInto_of_pointsAt (pointsAt_of_tokenize hadded hm))

/-- A literal over two lines that is not closed: its stretch goes one byte past the end. -/
theorem report_shownAlike_unclosed :
    (tokenize "\"a\né".toList .empty).1.messages = [⟨"unexpected EOF", .error, .clamped 0 6 5⟩] ∧
      (Message.report ⟨"unexpected EOF", .error, .clamped 0 6 5⟩ "\"a\né".toList).labels =
        [⟨some "here", 5, 0⟩, ⟨none, 0, 5⟩] ∧
      placeAt "\"a\né".toList 5 = ⟨2, 3⟩ ∧
      Message.ShownAlike ⟨"unexpected EOF", .error, .clamped 0 6 5⟩ "\"a\né".toList := by
  have hmessages : (tokenize "\"a\né".toList .empty).1.messages =
      [⟨"unexpected EOF", .error, .clamped 0 6 5⟩] := by decide +kernel
  have hadded : (tokenize "\"a\né".toList .empty).1.messages = Log.empty.messages ++
      [⟨"unexpected EOF", .error, .clamped 0 6 5⟩] := hmessages
  exact ⟨hmessages, by decide +kernel, by decide +kernel,
    (report_shownAlike _ _).2 _ _ hadded (List.mem_singleton_self _)⟩

end SourceScan
