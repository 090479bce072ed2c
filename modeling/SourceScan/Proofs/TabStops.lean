import SourceScan.Proofs.Underlines

/-!
# Proofs/TabStops.lean -- the caret below a line with tabs

A reader sees columns, not characters: a tab takes up the room to the next tab stop. Below a line a
blank stands for each character ahead of the position, a tab for a tab, so the marks begin in the
column where the position does. From there on each character has one mark of one column, a tab too, so
that a tab among them moves what is above away from what is below.

* `columnBehind`: the display column behind a text; `le_columnBehind`, `columnBehind_eq_iff`: a text is
  as wide as it is long if each of its tabs is right ahead of a stop (`TabsNarrow`), and else wider.
* `SourceLine.caretColumn`, `SourceLine.columnAt`: where the caret and where a character is displayed.
* **`caret_aligned_iff`**: the caret of a message is displayed below the character at the pointer if
  the tabs between the position's start on the line and the pointer are narrow, and else left of it.
* `caret_astray_behind_tab`: a literal with a tab that is not closed.
-/

namespace SourceScan

open Text

/-! ## 1. Tab stops -/

/-- The display column behind a text that begins in `column`: a tab goes on to the next of the stops,
    which are `stop` columns apart, and any other character takes one column. -/
def columnBehind (stop column : Nat) : List Char → Nat
  | [] => column
  | c :: cs => columnBehind stop (if c = '\t' then (column / stop + 1) * stop else column + 1) cs

/-- Each tab of a text is right ahead of a stop, if all that is ahead of it takes one column for each
    character: no tab is wider than that. -/
def TabsNarrow (stop column : Nat) (text : List Char) : Prop :=
  ∀ ahead behind, text = ahead ++ '\t' :: behind → stop ∣ column + ahead.length + 1

section Columns

variable {stop column : Nat} {cs : List Char}

theorem columnBehind_tab (stop column : Nat) (cs : List Char) :
    columnBehind stop column ('\t' :: cs) = columnBehind stop ((column / stop + 1) * stop) cs := rfl

theorem columnBehind_cons {c : Char} (h : c ≠ '\t') (stop column : Nat) (cs : List Char) :
    columnBehind stop column (c :: cs) = columnBehind stop (column + 1) cs := by
  rw [columnBehind, if_neg h]

theorem columnBehind_append (stop column : Nat) (as bs : List Char) :
    columnBehind stop column (as ++ bs) = columnBehind stop (columnBehind stop column as) bs := by
  induction as generalizing column with
  | nil => rfl
  | cons a as ih => rw [List.cons_append, columnBehind, columnBehind, ih]

/-- Without tabs a text is as wide as it is long. -/
theorem columnBehind_of_notMem (h : '\t' ∉ cs) : columnBehind stop column cs = column + cs.length := by
  induction cs generalizing column with
  | nil => rfl
  | cons c cs ih =>
    rw [columnBehind_cons (List.ne_of_not_mem_cons h).symm, ih (List.not_mem_of_not_mem_cons h),
      List.length_cons]
    omega

/-- **A blank is as wide as the text it stands for.** -/
theorem columnBehind_blankFor (stop column : Nat) (cs : List Char) :
    columnBehind stop column (blankFor cs) = columnBehind stop column cs := by
  induction cs generalizing column with
  | nil => rfl
  | cons c cs ih =>
    unfold blankFor at ih ⊢
    rw [List.map_cons]
    by_cases h : c = '\t'
    · rw [h, if_pos rfl, columnBehind_tab, columnBehind_tab, ih]
    · rw [if_neg h, columnBehind_cons (by decide), columnBehind_cons h, ih]

/-- The next stop is in the next column if that is where a stop is, and else farther on. -/
theorem lt_nextStop (hstop : 0 < stop) (column : Nat) : column < (column / stop + 1) * stop := by
  rw [Nat.mul_comm]
  exact Nat.lt_mul_div_succ column hstop

theorem nextStop_eq_iff : (column / stop + 1) * stop = column + 1 ↔ stop ∣ column + 1 := by
  constructor
  · intro h
    exact ⟨column / stop + 1, by rw [← h, Nat.mul_comm]⟩
  · intro h
    rw [← Nat.succ_div_of_dvd h, Nat.div_mul_cancel h]

theorem tabsNarrow_nil : TabsNarrow stop column [] := by
  intro ahead behind h
  cases ahead <;> cases h

theorem tabsNarrow_cons {c : Char} : TabsNarrow stop column (c :: cs) ↔
    (c = '\t' → stop ∣ column + 1) ∧ TabsNarrow stop (column + 1) cs := by
  constructor
  · refine fun h => ⟨fun hc => h [] cs (hc ▸ rfl), fun ahead behind hcs => ?_⟩
    have hdvd := h (c :: ahead) behind (hcs ▸ rfl)
    rwa [List.length_cons, Nat.add_comm ahead.length, ← Nat.add_assoc column] at hdvd
  · rintro ⟨hc, hrest⟩ ahead behind h
    cases ahead with
    | nil =>
      obtain ⟨rfl, rfl⟩ := List.cons.inj h
      exact hc rfl
    | cons a ahead =>
      obtain ⟨rfl, rfl⟩ := List.cons.inj h
      rw [List.length_cons, Nat.add_comm ahead.length, ← Nat.add_assoc column]
      exact hrest ahead behind rfl

/-- A text is at least as wide as it is long. -/
theorem le_columnBehind (hstop : 0 < stop) (column : Nat) (cs : List Char) :
    column + cs.length ≤ columnBehind stop column cs := by
  induction cs generalizing column with
  | nil => exact Nat.le_refl _
  | cons c cs ih =>
    rw [List.length_cons]
    by_cases h : c = '\t'
    · have hnext := lt_nextStop hstop column
      have hrest := ih ((column / stop + 1) * stop)
      rw [h, columnBehind_tab]
      omega
    · have hrest := ih (column + 1)
      rw [columnBehind_cons h]
      omega

/-- **A text is as wide as it is long if its tabs are narrow**, and only then. -/
theorem columnBehind_eq_iff (hstop : 0 < stop) :
    columnBehind stop column cs = column + cs.length ↔ TabsNarrow stop column cs := by
  induction cs generalizing column with
  | nil => exact ⟨fun _ => tabsNarrow_nil, fun _ => rfl⟩
  | cons c cs ih =>
    rw [tabsNarrow_cons, ← ih, List.length_cons]
    by_cases h : c = '\t'
    · subst h
      rw [columnBehind_tab, ← nextStop_eq_iff]
      constructor
      · intro hwide
        have hnext := lt_nextStop hstop column
        have hrest := le_columnBehind hstop ((column / stop + 1) * stop) cs
        have heq : (column / stop + 1) * stop = column + 1 := by omega
        rw [heq] at hwide
        exact ⟨fun _ => heq, by omega⟩
      · rintro ⟨heq, hwide⟩
        rw [heq rfl, hwide]
        omega
    · rw [columnBehind_cons h]
      constructor
      · exact fun hwide => ⟨fun hc => absurd hc h, by omega⟩
      · rintro ⟨-, hwide⟩
        omega

/-- With few columns between the stops a text has gone past none or is not far behind the last. -/
theorem mod_columnBehind_le (h : column % stop + cs.length < stop) :
    columnBehind stop column cs % stop ≤ column % stop + cs.length := by
  induction cs generalizing column with
  | nil => exact Nat.le_refl _
  | cons c cs ih =>
    rw [List.length_cons] at h ⊢
    by_cases hc : c = '\t'
    · have hnext : (column / stop + 1) * stop % stop = 0 := Nat.mul_mod_left ..
      have hfits : (column / stop + 1) * stop % stop + cs.length < stop := by omega
      have hrest := ih hfits
      rw [hc, columnBehind_tab]
      omega
    · have hnext : (column + 1) % stop = column % stop + 1 := by
        rw [Nat.add_mod_eq_add_mod_right 1 (Nat.mod_mod column stop).symm]
        exact Nat.mod_eq_of_lt (by omega)
      have hfits : (column + 1) % stop + cs.length < stop := by omega
      have hrest := ih hfits
      rw [columnBehind_cons hc]
      omega

/-- Where stops are far apart, narrow tabs are none. -/
theorem notMem_of_tabsNarrow (hfar : column % stop + cs.length < stop)
    (h : TabsNarrow stop column cs) : '\t' ∉ cs := by
  intro hmem
  obtain ⟨ahead, behind, rfl⟩ := List.append_of_mem hmem
  rw [List.length_append, List.length_cons] at hfar
  have hcolumn : column + ahead.length + 1 = stop * (column / stop) +
      (column % stop + ahead.length + 1) := by
    have hdiv := Nat.div_add_mod column stop
    omega
  have hdvd : stop ∣ column % stop + ahead.length + 1 :=
    (Nat.dvd_add_right (Nat.dvd_mul_right ..)).mp (hcolumn ▸ h ahead behind rfl)
  have hle := Nat.le_of_dvd (Nat.succ_pos _) hdvd
  omega

end Columns

/-! ## 2. Rows -/

section Rows

variable {source : List Char} {stop : Nat}

/-- The gutters of a rendering are of one width, and have no tab. -/
theorem length_gutter {number : Option Nat} (h : ∀ n ∈ number, n ≤ lineCount source) :
    (Row.gutter (gutterWidth source) ⟨number, []⟩).length = gutterWidth source + 3 := by
  have hpad : ∀ digits : List Char, digits.length ≤ gutterWidth source →
      ([' '] ++ padLeft (gutterWidth source) digits ++ [' ', '|']).length =
        gutterWidth source + 3 := by
    intro digits hdigits
    rw [List.length_append, List.length_append, length_padLeft hdigits, List.length_singleton,
      Nat.add_comm 1]
    rfl
  cases number with
  | none => exact hpad [] (Nat.zero_le _)
  | some n => exact hpad (Nat.toDigits 10 n) (length_toDigits_le (h n rfl))

/-- The display column of what is behind a gutter, a space and `text`. -/
theorem columnBehind_gutter {number : Option Nat} (h : ∀ n ∈ number, n ≤ lineCount source)
    (stop : Nat) (text : List Char) :
    columnBehind stop 0 (Row.gutter (gutterWidth source) ⟨number, []⟩ ++ ' ' :: text) =
      columnBehind stop (gutterWidth source + 4) text := by
  have htab : '\t' ∉ Row.gutter (gutterWidth source) ⟨number, []⟩ := fun hmem =>
    absurd (Row.mem_gutter hmem) (by decide)
  rw [columnBehind_append, columnBehind_of_notMem htab, length_gutter h,
    columnBehind_cons (by decide), Nat.zero_add]

/-- The display column of the caret in the row below a line: of the first `^` in it. -/
def SourceLine.caretColumn (line : SourceLine) (source : List Char) (stop s e i : Nat) : Nat :=
  let row := plainRow (gutterWidth source) none
    (blankFor (line.text.take s) ++ marksBelow s e (some i))
  columnBehind stop 0 (row.takeWhile (· != '^'))

/-- The display column where character `i` begins in the row of a line, or where the row ends if the
    line has no more than `i` characters. The gutter has a space behind it, even where nothing is
    printed behind that. -/
def SourceLine.columnAt (line : SourceLine) (source : List Char) (stop i : Nat) : Nat :=
  columnBehind stop 0
    (Row.gutter (gutterWidth source) ⟨some line.number, []⟩ ++ ' ' :: line.text.take i)

/-- Up to its caret a row has its gutter, a space, and what is ahead. -/
theorem takeWhile_plainRow {ahead : List Char} (h : '^' ∉ ahead) (width : Nat)
    (behind : List Char) : (plainRow width none (ahead ++ '^' :: behind)).takeWhile (· != '^') =
      Row.gutter width ⟨none, []⟩ ++ ' ' :: ahead := by
  have hgutter : '^' ∉ Row.gutter width ⟨none, []⟩ := fun hmem =>
    absurd (Row.mem_gutter hmem) (by decide)
  have hrow : plainRow width none (ahead ++ '^' :: behind) =
      (Row.gutter width ⟨none, []⟩ ++ ' ' :: ahead) ++ '^' :: (behind ++ ['\n']) := by
    simp [plainRow]
  have hbefore : ∀ c ∈ Row.gutter width ⟨none, []⟩ ++ ' ' :: ahead, (c != '^') = true := by
    intro c hc
    rw [bne_iff_ne]
    rintro rfl
    rw [List.mem_append, List.mem_cons] at hc
    rcases hc with hc | hc | hc
    · exact hgutter hc
    · exact absurd hc (by decide)
    · exact h hc
  rw [hrow, List.takeWhile_append_of_pos hbefore, List.takeWhile_cons, if_neg (by decide),
    List.append_nil]

/-- The caret is as many columns behind the first mark as there are characters between. -/
theorem caretColumn_eq {line : SourceLine} {s i : Nat} (hsi : s ≤ i) (stop e : Nat) :
    line.caretColumn source stop s e i =
      columnBehind stop (gutterWidth source + 4) (line.text.take s) + (i - s) := by
  have hmarks : blankFor (line.text.take s) ++ marksBelow s e (some i) =
      (blankFor (line.text.take s) ++ List.replicate (i - s) '~') ++
        '^' :: List.replicate (e - (i + 1)) '~' := by
    rw [marksBelow_some hsi, List.append_assoc]
  have hcaret : '^' ∉ blankFor (line.text.take s) ++ List.replicate (i - s) '~' := by
    rw [List.mem_append, List.mem_replicate]
    rintro (hmem | ⟨-, hmem⟩)
    · exact caret_notMem_blankFor _ hmem
    · exact absurd hmem (by decide)
  have htab : '\t' ∉ List.replicate (i - s) '~' := by
    rw [List.mem_replicate]
    exact fun hmem => absurd hmem.2 (by decide)
  unfold SourceLine.caretColumn
  dsimp only
  rw [hmarks, takeWhile_plainRow hcaret, columnBehind_gutter (by simp),
    columnBehind_append, columnBehind_blankFor, columnBehind_of_notMem htab, List.length_replicate]

/-- What tabs do to a caret: it is not right of the character at the pointer; it is right below it if
    the tabs between the first mark and the pointer are narrow, so at every width of tabs only if there
    is none. -/
structure SourceLine.CaretAmongTabs (line : SourceLine) (source : List Char) (s e i : Nat) : Prop where
  le : ∀ stop, 0 < stop → line.caretColumn source stop s e i ≤ line.columnAt source stop i
  aligned_iff : ∀ stop, 0 < stop →
    (line.caretColumn source stop s e i = line.columnAt source stop i ↔
      TabsNarrow stop (line.columnAt source stop s) ((line.text.take i).drop s))
  always_iff : (∀ stop, 0 < stop →
    line.caretColumn source stop s e i = line.columnAt source stop i) ↔
      '\t' ∉ (line.text.take i).drop s

/-- **What stands between the first mark and the caret is as wide as it is long**, and the text above
    it may be wider. -/
theorem caretAmongTabs {line : SourceLine} (hline : line ∈ sourceLines source) {s i : Nat}
    (hsi : s ≤ i) (hi : i ≤ line.text.length) (e : Nat) : line.CaretAmongTabs source s e i := by
  have hnumber : ∀ n ∈ some line.number, n ≤ lineCount source := by
    rintro n ⟨⟩
    have hlt := (List.getElem?_eq_some_iff.mp (getElem?_of_mem_sourceLines hline)).1
    rw [length_lines] at hlt
    omega
  have hlength : ((line.text.take i).drop s).length = i - s := by
    rw [List.length_drop, List.length_take_of_le hi]
  have hcolumn : ∀ stop, line.columnAt source stop i =
      columnBehind stop (line.columnAt source stop s) ((line.text.take i).drop s) := by
    intro stop
    unfold SourceLine.columnAt
    rw [columnBehind_gutter hnumber, columnBehind_gutter hnumber, ← columnBehind_append,
      take_append_drop_take hsi]
  have hcaret : ∀ stop, line.caretColumn source stop s e i =
      line.columnAt source stop s + ((line.text.take i).drop s).length := by
    intro stop
    unfold SourceLine.columnAt
    rw [caretColumn_eq hsi, columnBehind_gutter hnumber, hlength]
  have haligned : ∀ stop, 0 < stop →
      (line.caretColumn source stop s e i = line.columnAt source stop i ↔
        TabsNarrow stop (line.columnAt source stop s) ((line.text.take i).drop s)) := by
    intro stop hstop
    rw [hcaret, hcolumn, eq_comm]
    exact columnBehind_eq_iff hstop
  refine ⟨fun stop hstop => ?_, haligned, fun h => ?_, fun h stop _ => ?_⟩
  · rw [hcaret, hcolumn]
    exact le_columnBehind hstop ..
  · -- with stops farther apart than the row is long, no tab is narrow
    have hshort : (line.text.take s).length ≤ s := List.length_take_le ..
    have hstart : (gutterWidth source + 4) % (gutterWidth source + 5 + i) = gutterWidth source + 4 :=
      Nat.mod_eq_of_lt (by omega)
    have hmod : line.columnAt source (gutterWidth source + 5 + i) s %
        (gutterWidth source + 5 + i) ≤ gutterWidth source + 4 + s := by
      unfold SourceLine.columnAt
      rw [columnBehind_gutter hnumber]
      refine Nat.le_trans (mod_columnBehind_le ?_) ?_ <;> omega
    have hwide : 0 < gutterWidth source + 5 + i := by omega
    refine notMem_of_tabsNarrow ?_ ((haligned _ hwide).mp (h _ hwide))
    omega
  · rw [hcaret, hcolumn, columnBehind_of_notMem h]

end Rows

/-! ## 3. Messages -/

/-- The caret of a message that points into its text is below the line of its target. -/
theorem exists_caretLine {m : Message} {source : List Char} (hinto : m.PointsInto source) :
    ∃ line ∈ sourceLines source, line.Touched m.position ∧ line.Holds m.position.target ∧
      m.position.caretOffset source = m.position.target := by
  obtain ⟨line, hline, hholds, -⟩ := exists_line_of_le hinto.target_le
  have hlt : m.position.target < m.position.stop :=
    Nat.add_lt_add_left hinto.pointer_lt m.position.start
  exact ⟨line, hline, ⟨m.position.target, Nat.le_add_right .., hlt, hholds⟩, hholds,
    caretOffset_of_pointsInto hinto⟩

/-- **The caret of a message is displayed below the character at its pointer if no tab from the
    position's start on the line up to the pointer is wider than a column**, and left of it if one
    is. Below a row without text the caret is in column `gutterWidth source + 4`; the row counts as
    one that ends there, with the space behind its gutter, which is not printed. -/
theorem caret_aligned_iff (name source : String) (context : Nat) {m : Message}
    (hm : m ∈ (SourceUnit.ofSource name source).messages) :
    ∃ line ∈ sourceLines source.toList, ∃ s e i,
      Columns source.toList m.position line s e (some i) ∧
      m.Underlines name source.toList context line s e (some i) ∧
      line.CaretAmongTabs source.toList s e i := by
  have hadded : (tokenize source.toList .empty).1.messages =
      Log.empty.messages ++ (SourceUnit.ofSource name source).messages := (List.nil_append _).symm
  have hinto := pointsInto_of_pointsAt (pointsAt_of_tokenize hadded hm)
  obtain ⟨line, hline, htouched, hholds, hoffset⟩ := exists_caretLine hinto
  obtain ⟨s, e, caret, hcolumns, hunderline⟩ :=
    exists_columns (standsIn_of_mem_sourceLines hline) htouched m.severity
  obtain ⟨i, hi⟩ : ∃ i, i = charsBefore line.text (m.position.target - line.start) := ⟨_, rfl⟩
  obtain rfl : caret = some i :=
    (hcolumns.caret_iff i).mpr ⟨hoffset.symm ▸ hholds, indexOf_iff.mpr hi⟩
  have hsi : s ≤ i := by
    have hstart : m.position.start ≤ m.position.target := Nat.le_add_right ..
    have hbegin := hholds.start_le
    rw [hi, indexOf_iff.mp hcolumns.start]
    exact charsBefore_mono _ (by omega)
  exact ⟨line, hline, s, e, i, hcolumns,
    underlines_of_touched hline htouched name context hunderline,
    caretAmongTabs hline hsi (hi ▸ charsBefore_le_length ..) e⟩

/-- A literal that goes on over a second line, which has a tab ahead of the pointer. -/
theorem caret_aligned_iff_second_line :
    (⟨"unexpected EOF", .error, .clamped 0 6 5⟩ : Message) ∈
        (SourceUnit.ofSource "t" "\"a\n\tb").messages ∧
      Message.Underlines ⟨"unexpected EOF", .error, .clamped 0 6 5⟩ "t" "\"a\n\tb".toList 0
        ⟨2, 3, ['\t', 'b'], true⟩ 0 2 (some 2) ∧
      SourceLine.CaretAmongTabs ⟨2, 3, ['\t', 'b'], true⟩ "\"a\n\tb".toList 0 2 2 := by
  have hm : (⟨"unexpected EOF", .error, .clamped 0 6 5⟩ : Message) ∈
      (SourceUnit.ofSource "t" "\"a\n\tb").messages := by decide +kernel
  have hlines : sourceLines "\"a\n\tb".toList =
      [⟨1, 0, ['"', 'a'], false⟩, ⟨2, 3, ['\t', 'b'], true⟩] := by decide +kernel
  obtain ⟨line, hline, s, e, i, ⟨hstart, hstop, hcaret⟩, hrows, htabs⟩ :=
    caret_aligned_iff "t" "\"a\n\tb" 0 hm
  obtain ⟨hholds, hindex⟩ := (hcaret i).mp rfl
  obtain rfl : line = ⟨2, 3, ['\t', 'b'], true⟩ := by
    rw [hlines] at hline
    rcases List.mem_cons.mp hline with rfl | hline
    · exact absurd hholds.lt_slotEnd (by decide +kernel)
    · exact List.mem_singleton.mp hline
  obtain rfl : s = 0 := (indexOf_iff.mp hstart).trans (by decide +kernel)
  obtain rfl : e = 2 := (indexOf_iff.mp hstop).trans (by decide +kernel)
  obtain rfl : i = 2 := (indexOf_iff.mp hindex).trans (by decide +kernel)
  exact ⟨hm, hrows, htabs⟩

/-- **The caret of a literal that is not closed can be displayed left of the end of the text**: behind
    a tab in the literal it stands in column 10, with stops 8 columns apart, and the row above it ends
    in column 11. -/
theorem caret_astray_behind_tab :
    (SourceUnit.ofSource "t" "\"\tabc").messages = [⟨"unexpected EOF", .error, .clamped 0 6 5⟩] ∧
      Message.rendered ⟨"unexpected EOF", .error, .clamped 0 6 5⟩ "t" "\"\tabc".toList ⟨false, 0⟩ =
        "t:1:1: error: unexpected EOF\n 1 | \"\tabc\n   | ~~~~~^\n".toList ∧
      columnBehind 8 0 "   | ~~~~~".toList = 10 ∧ columnBehind 8 0 " 1 | \"\tabc".toList = 11 := by
  decide +kernel

end SourceScan
