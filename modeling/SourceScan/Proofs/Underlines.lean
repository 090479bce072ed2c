import SourceScan.Proofs.Caret
import SourceScan.Proofs.ShownLines

/-!
# Proofs/Underlines.lean -- what stands below a line

Start, stop and pointer of a position may each lie inside a character, at the end of a line or past it.
Each of them is brought down to a character on its own, and the line is cut into parts at all three.
This file puts the parts together again: below a line stands one mark for each character of the
position, and the caret where the pointer is.

* `IndexOf`: the index of the character that holds a column; `indexOf_iff`: it is the number of
  characters that end at or before the column.
* `marksBelow`: one mark for each index from one up to another, and a caret at one of them.
* `Marks.text_underline_cut`: the underline of a line that is cut at its marks.
* `Columns`: the indices that a position has on a line.
* **`underlined_rows`**: the two rows of each line that a position touches.
-/

namespace SourceScan

open Text

/-! ## 1. Columns and characters -/

/-- The index of the character of a line that holds byte `column`, or the number of characters if the
    line has no such byte. -/
inductive IndexOf (line : List Char) (column : Nat) : Nat → Prop
  | inside {ahead behind : List Char} {c : Char} (hline : line = ahead ++ c :: behind)
      (hle : width ahead ≤ column) (hlt : column < width ahead + c.utf8Size) :
      IndexOf line column ahead.length
  | past (h : width line ≤ column) : IndexOf line column line.length

section Columns

variable {line : List Char} {column i : Nat}

theorem charsBefore_inside {ahead behind : List Char} {c : Char} (hle : width ahead ≤ column)
    (hlt : column < width ahead + c.utf8Size) :
    charsBefore (ahead ++ c :: behind) column = ahead.length := by
  refine Nat.le_antisymm (Nat.le_of_not_lt fun hmore => ?_) (le_charsBefore_iff.mpr ⟨?_, ?_⟩)
  · have hwidth : width ((ahead ++ c :: behind).take (ahead.length + 1)) ≤ column :=
      (le_charsBefore_iff.mp (Nat.succ_le_of_lt hmore)).2
    rw [List.take_length_add_append, width_append] at hwidth
    have hsize : width ((c :: behind).take 1) = c.utf8Size := Nat.add_zero _
    omega
  · rw [List.length_append]
    exact Nat.le_add_right ..
  · rwa [List.take_left]

/-- **The character of a column is the one that so many end ahead of.** -/
theorem indexOf_iff : IndexOf line column i ↔ i = charsBefore line column := by
  constructor
  · rintro (⟨rfl, hle, hlt⟩ | h)
    · exact (charsBefore_inside hle hlt).symm
    · exact (charsBefore_of_width_le h).symm
  · rintro rfl
    obtain ⟨hlength, hwidth⟩ := le_charsBefore_iff.mp (Nat.le_refl (charsBefore line column))
    by_cases hend : charsBefore line column = line.length
    · rw [hend, List.take_length] at hwidth
      rw [hend]
      exact .past hwidth
    · have hlt : charsBefore line column < line.length := Nat.lt_of_le_of_ne hlength hend
      have hindex : (line.take (charsBefore line column)).length = charsBefore line column :=
        List.length_take_of_le hlength
      obtain ⟨c, behind, hbehind⟩ : ∃ c behind, line.drop (charsBefore line column) = c :: behind :=
        List.exists_cons_of_ne_nil fun hnil => Nat.not_le.mpr hlt (List.drop_eq_nil_iff.mp hnil)
      have hline : line = line.take (charsBefore line column) ++ c :: behind := by
        rw [← hbehind, List.take_append_drop]
      have hinside := IndexOf.inside hline hwidth (Nat.lt_of_not_le fun hle => ?_)
      · rwa [hindex] at hinside
      · -- else one character more would end at or before the column
        have hmore : charsBefore line column + 1 ≤ charsBefore line column := by
          refine le_charsBefore_iff.mpr ⟨hlt, ?_⟩
          rw [List.take_add, hbehind, width_append]
          exact hle
        exact absurd hmore (Nat.not_succ_le_self _)

end Columns

/-! ## 2. Marks -/

/-- One mark for each index from `s` up to `e`, or up to the caret if that is farther on: the caret is
    `^`, all else `~`. -/
def marksBelow (s e : Nat) (caret : Option Nat) : List Char :=
  let stop := match caret with
    | some p => max e (p + 1)
    | none => e
  (List.range' s (stop - s)).map fun i => if caret = some i then '^' else '~'

theorem map_range'_of_ne {caret : Option Nat} {s n : Nat}
    (h : ∀ i, s ≤ i → i < s + n → caret ≠ some i) :
    (List.range' s n).map (fun i => if caret = some i then '^' else '~') = List.replicate n '~' := by
  refine List.eq_replicate_iff.mpr ⟨by rw [List.length_map, List.length_range'], fun c hc => ?_⟩
  obtain ⟨i, hi, rfl⟩ := List.mem_map.mp hc
  obtain ⟨hle, hlt⟩ := List.mem_range'_1.mp hi
  exact if_neg (h i hle hlt)

theorem marksBelow_none (s e : Nat) : marksBelow s e none = List.replicate (e - s) '~' :=
  map_range'_of_ne fun _ _ _ h => nomatch h

/-- Ahead of the caret and behind it stand tildes. -/
theorem marksBelow_some {s p : Nat} (h : s ≤ p) (e : Nat) : marksBelow s e (some p) =
    List.replicate (p - s) '~' ++ '^' :: List.replicate (e - (p + 1)) '~' := by
  have hrange : List.range' s (max e (p + 1) - s) =
      List.range' s (p - s) ++ p :: List.range' (p + 1) (e - (p + 1)) := by
    have hcount : max e (p + 1) - s = (p - s) + (e - (p + 1) + 1) := by omega
    have hmiddle : s + 1 * (p - s) = p := by omega
    rw [hcount, ← List.range'_append, hmiddle, List.range'_succ]
  unfold marksBelow
  dsimp only
  rw [hrange, List.map_append, List.map_cons, if_pos rfl, map_range'_of_ne, map_range'_of_ne]
  · intro i hle _ heq
    cases heq
    omega
  · intro i _ hlt heq
    cases heq
    omega

/-- **Below a line that is cut at its marks stands what the indices of the marks say.** -/
theorem Marks.text_underline_cut {m : Marks} (hstart : m.start ≤ m.stop)
    (hpointer : ∀ column, m.pointer = some column → m.start ≤ column) (line : List Char)
    (severity : Severity) : ((m.cut line).underline severity).text =
      blankFor (line.take (charsBefore line m.start)) ++
        marksBelow (charsBefore line m.start) (charsBefore line m.stop)
          (m.pointer.map (charsBefore line)) := by
  have hmax : max (charsBefore line m.stop) (charsBefore line m.start) = charsBefore line m.stop :=
    Nat.max_eq_left (charsBefore_mono line hstart)
  have hstop := charsBefore_le_length line m.stop
  rw [Underlined.text_underline, wave, wave]
  cases hm : m.pointer with
  | none =>
    unfold cut
    rw [hm]
    dsimp only
    rw [Option.map_none, marksBelow_none, hmax, List.length_drop, List.length_take_of_le hstop]
    simp
  | some column =>
    have hle := charsBefore_mono line (hpointer column hm)
    have hlength := charsBefore_le_length line column
    -- behind the last character there is none at the pointer, and nothing to mark behind it
    have hafter : charsBefore line m.stop -
        (charsBefore line column + ((line.drop (charsBefore line column)).take 1).length) =
          charsBefore line m.stop - (charsBefore line column + 1) := by
      rw [List.length_take, List.length_drop]
      omega
    unfold cut
    rw [hm]
    dsimp only
    rw [Option.map_some, marksBelow_some hle, hmax, Nat.max_eq_left hle, List.length_drop,
      List.length_drop, List.length_take_of_le hlength, List.length_take_of_le hstop, hafter]
    simp

/-! ## 3. Lines -/

/-- The indices that a position has on a line: those of its first byte there and of its stop, and of
    the byte pointed at if the line is the one with the caret. -/
structure Columns (source : List Char) (p : Position) (line : SourceLine) (s e : Nat)
    (caret : Option Nat) : Prop where
  start : IndexOf line.text (max p.start line.start - line.start) s
  stop : IndexOf line.text (p.stop - line.start) e
  caret_iff : ∀ i, caret = some i ↔
    line.Holds (p.caretOffset source) ∧ IndexOf line.text (p.target - line.start) i

/-- A message is printed with a line as it is and, in the row below, a blank for each character ahead
    of index `s`, and the marks behind. -/
def Message.Underlines (m : Message) (name : String) (source : List Char) (context : Nat)
    (line : SourceLine) (s e : Nat) (caret : Option Nat) : Prop :=
  ∃ above shown underline below,
    excerptRows source m.position m.severity context = above ++ shown :: underline :: below ∧
    m.rendered name source ⟨false, context⟩ = (m.header name source).text ++ ['\n'] ++
      (above ++ shown :: underline :: below).flatMap (Row.print false (gutterWidth source)) ∧
    shown.print false (gutterWidth source) =
      plainRow (gutterWidth source) (some line.number) line.text ∧
    underline.print false (gutterWidth source) = plainRow (gutterWidth source) none
      (blankFor (line.text.take s) ++ marksBelow s e caret)

section Lines

variable {source : List Char} {line : SourceLine} {p : Position}

/-- **The underline of a line that a position touches.** -/
theorem exists_columns (hline : line.StandsIn source) (htouched : line.Touched p)
    (severity : Severity) : ∃ s e caret, Columns source p line s e caret ∧
      line.underline p severity = blankFor (line.text.take s) ++ marksBelow s e caret := by
  have hmeets := SourceLine.touched_iff_meets.mp htouched
  obtain ⟨hlength, hstart, hstop⟩ := hmeets
  have hslot : line.slotEnd = line.start + width line.text + 1 := rfl
  have hend : p.stop = p.start + p.length := rfl
  have htarget : p.target = p.start + p.pointer := rfl
  have hmarks := SourceLine.marks?_of_meets ⟨hlength, hstart, hstop⟩
  unfold SourceLine.underline
  rw [hmarks]
  dsimp only
  rw [Marks.text_underline_cut]
  · refine ⟨_, _, _, ⟨?_, ?_, fun i => ?_⟩, rfl⟩
    · have hcolumn : max p.start line.start - line.start = p.start - line.start := by omega
      rw [indexOf_iff, hcolumn]
    · rw [indexOf_iff]
      exact charsBefore_min (Nat.le_succ _) _
    · rw [← carriesPointer_iff hline ⟨hlength, hstart, hstop⟩, indexOf_iff]
      cases line.carriesPointer p with
      | false => simp
      | true =>
        have hcolumn : charsBefore line.text (line.pointerColumn p) =
            charsBefore line.text (p.target - line.start) := charsBefore_min (Nat.le_refl _) _
        simp [hcolumn, eq_comm]
  · dsimp only
    omega
  · intro column hcolumn
    dsimp only at hcolumn ⊢
    split at hcolumn
    · cases hcolumn
      unfold SourceLine.pointerColumn
      omega
    · cases hcolumn

theorem Columns.stop_le {s e : Nat} {caret : Option Nat} (h : Columns source p line s e caret) :
    e ≤ line.text.length :=
  indexOf_iff.mp h.stop ▸ charsBefore_le_length ..

end Lines

/-- The two rows of a line that a position touches, among those of the rendering. -/
theorem underlines_of_touched {m : Message} {source : List Char} {line : SourceLine}
    (hline : line ∈ sourceLines source) (htouched : line.Touched m.position) (name : String)
    (context : Nat) {s e : Nat} {caret : Option Nat}
    (hunderline : line.underline m.position m.severity =
      blankFor (line.text.take s) ++ marksBelow s e caret) :
    m.Underlines name source context line s e caret := by
  obtain ⟨linesAbove, linesBelow, hshown⟩ := List.append_of_mem
    (mem_shownLines hline (SourceLine.touched_iff_meets.mp htouched) context)
  obtain ⟨shown, underline, hrows, hshownRow, hunderlineRow⟩ :=
    rows_of_touched htouched m.severity (gutterWidth source)
  have hexcerpt := excerptRows_of_rows hshown hrows
  exact ⟨_, shown, underline, _, hexcerpt, hexcerpt ▸ rendered_eq .., hshownRow,
    hunderline ▸ hunderlineRow⟩

/-- **Below each line that a position touches stand blanks up to its first byte there and one mark for
    each of its characters**, but none for the newline; the caret is among the marks of the line that
    holds its offset. The line itself stands above as it is. -/
theorem underlined_rows {m : Message} {source : List Char} {line : SourceLine}
    (hline : line ∈ sourceLines source) (htouched : line.Touched m.position) (name : String)
    (context : Nat) : ∃ s e caret, Columns source m.position line s e caret ∧
      e ≤ line.text.length ∧ m.Underlines name source context line s e caret := by
  obtain ⟨s, e, caret, hcolumns, hunderline⟩ :=
    exists_columns (standsIn_of_mem_sourceLines hline) htouched m.severity
  exact ⟨s, e, caret, hcolumns, hcolumns.stop_le,
    underlines_of_touched hline htouched name context hunderline⟩

/-- A position from inside `α` to the end of the line, its pointer inside `β`. -/
theorem underlined_rows_inside_characters :
    (⟨1, 0, ['\t', 'α', 'β'], false⟩ : SourceLine) ∈ sourceLines "\tαβ\nx".toList ∧
      SourceLine.Touched ⟨1, 0, ['\t', 'α', 'β'], false⟩ (.clamped 2 3 2) ∧
      Message.Underlines ⟨"span", .error, .clamped 2 3 2⟩ "t" "\tαβ\nx".toList 0
        ⟨1, 0, ['\t', 'α', 'β'], false⟩ 1 3 (some 2) := by
  have hline : (⟨1, 0, ['\t', 'α', 'β'], false⟩ : SourceLine) ∈ sourceLines "\tαβ\nx".toList := by
    decide +kernel
  have htouched : SourceLine.Touched ⟨1, 0, ['\t', 'α', 'β'], false⟩ (.clamped 2 3 2) := by
    decide +kernel
  obtain ⟨s, e, caret, ⟨hstart, hstop, hcaret⟩, -, hrows⟩ :=
    @underlined_rows ⟨"span", .error, .clamped 2 3 2⟩ _ _ hline htouched "t" 0
  obtain rfl : s = 1 := (indexOf_iff.mp hstart).trans (by decide +kernel)
  obtain rfl : e = 3 := (indexOf_iff.mp hstop).trans (by decide +kernel)
  obtain rfl : caret = some 2 := by
    refine (hcaret 2).mpr ⟨⟨by decide +kernel, by decide +kernel⟩, indexOf_iff.mpr ?_⟩
    decide +kernel
  exact ⟨hline, htouched, hrows⟩

end SourceScan
