import SourceScan.Message.Checked
import SourceScan.Proofs.Places
import SourceScan.Proofs.ShownLines

/-!
# Proofs/Safety.lean -- rendering gets through

Of the steps that render a message each may fail on its own: the offsets of the message are any at all.
None does. Columns are taken only on lines that the position meets, and once all of them are brought
down to boundaries and in order, every cut is one between characters of the line. The one sum that can
be too great is the end of the position itself.

* `Position.marksAt?_eq`, `Position.marksOf?_eq`: the marks of a line, and of all of them.
* `Marks.cut?_eq`: a line is cut at its marks.
* `shownLines_of_indices`: the lines shown are those between two indices.
* `excerptRows?_eq`: the rows of an excerpt.
* **`rendering_succeeds_iff`**: a message is rendered if and only if its position's end is within the
  limit, and every offset has a place.
-/

namespace SourceScan

open Text

/-! ## 1. Marks -/

section Marked

variable {limit : Nat} {p : Position}

/-- **The marks of a line**, if the line and the position end within the limit. -/
theorem Position.marksAt?_eq {line : SourceLine} (hslot : line.slotEnd ≤ limit)
    (hstop : p.stop ≤ limit) :
    p.marksAt? limit line.start (width line.text) line.isLast = some (line.marks? p) := by
  have hend : line.slotEnd = line.start + width line.text + 1 := rfl
  have htarget := p.target_le_stop
  -- no sum goes past the line's slot or the position
  have hlineEnd : sum? limit line.start (width line.text) = some (line.start + width line.text) :=
    sum?_eq (by omega)
  have hslotEnd : sum? limit (line.start + width line.text) 1 = some line.slotEnd := sum?_eq hslot
  have hpastText : sum? limit (width line.text) 1 = some (width line.text + 1) := sum?_eq (by omega)
  have hpstop : sum? limit p.start p.length = some p.stop := sum?_eq hstop
  have hptarget : sum? limit p.start p.pointer = some p.target :=
    sum?_eq (Nat.le_trans htarget hstop)
  have hcarries : line.start ≤ p.target ∧
      (p.target < line.slotEnd ∨ line.isLast = true ∨ p.stop ≤ line.slotEnd) ↔
        line.carriesPointer p = true := by
    simp [SourceLine.carriesPointer, or_assoc]
  unfold marksAt? SourceLine.marks?
  simp only [Option.bind_eq_bind, Option.bind_some, hlineEnd, hslotEnd, hpastText, hpstop, hptarget]
  by_cases hout : line.slotEnd ≤ p.start ∨ p.stop ≤ line.start
  · rw [if_pos hout, if_neg (by omega)]
    rfl
  · -- only here columns are taken, and the position ends behind the line's start
    have hback : difference? p.stop line.start = some (p.stop - line.start) :=
      difference?_eq (by omega)
    rw [if_neg hout, hback]
    simp only [Option.bind_some]
    by_cases hempty : min (p.stop - line.start) (width line.text + 1) ≤ p.start - line.start
    · rw [if_pos hempty, if_neg fun hmeets => Nat.not_le.mpr hmeets.2.2 hempty]
      rfl
    · have hmeets : p.start < line.slotEnd ∧ line.start < p.stop ∧
          p.start - line.start < min (p.stop - line.start) (width line.text + 1) :=
        ⟨by omega, by omega, Nat.lt_of_not_le hempty⟩
      rw [if_neg hempty, if_pos hmeets]
      by_cases hpointer : line.carriesPointer p = true
      · rw [if_pos (hcarries.mpr hpointer), if_pos hpointer,
          difference?_eq (hcarries.mpr hpointer).1]
        rfl
      · rw [if_neg (mt hcarries.mp hpointer), if_neg hpointer]
        rfl

/-- A position whose end is past the limit has marks on no line. -/
theorem Position.marksAt?_eq_none (hstop : limit < p.stop) (lineStart lineWidth : Nat)
    (isLast : Bool) : p.marksAt? limit lineStart lineWidth isLast = none := by
  have hpstop : sum? limit p.start p.length = none := sum?_eq_none hstop
  simp [marksAt?, hpstop]

/-- **The marks of all lines**: the running sum is the start of each, and the last has the last
    index. -/
theorem Position.marksOf?_eq (hstop : p.stop ≤ limit) (number : Nat) {last index start : Nat}
    {ls : List (List Char)} (hslots : start + slots ls ≤ limit)
    (hlast : last + 1 = index + ls.length) : p.marksOf? limit last index start ls =
      some ((numberLines number start ls).map (·.marks? p)) := by
  induction ls generalizing number index start with
  | nil => rfl
  | cons l ls ih =>
    rw [slots] at hslots
    rw [List.length_cons] at hlast
    have hisLast : (index == last) = ls.isEmpty := by
      rw [Bool.eq_iff_iff, beq_iff_eq, List.isEmpty_iff, ← List.length_eq_zero_iff]
      omega
    have hslot : (⟨number, start, l, ls.isEmpty⟩ : SourceLine).slotEnd ≤ limit := by
      show start + width l + 1 ≤ limit
      omega
    have hmarks := Position.marksAt?_eq hslot hstop
    have hwidth : sum? limit (width l) 1 = some (width l + 1) := sum?_eq (by omega)
    have hnext : sum? limit start (width l + 1) = some (start + width l + 1) := sum?_eq (by omega)
    rw [marksOf?, hisLast, hmarks, numberLines, List.map_cons]
    simp only [Option.bind_eq_bind, Option.bind_some, hwidth, hnext]
    rw [ih (number + 1) (by omega) (by omega)]
    rfl

end Marked

/-! ## 2. Cut lines -/

/-- **A line is cut at its marks**, wherever they are: no part but the one behind the pointed character
    can be out of order. -/
theorem Marks.cut?_eq {limit : Nat} {line : List Char} (h : width line ≤ limit) (m : Marks) :
    m.cut? limit line = some (m.cut line) := by
  have hfront : ∀ k, between? line 0 (width (line.take k)) = some (line.take k) := fun k =>
    between?_take line (Nat.zero_le k)
  have hback : ∀ j, j ≤ line.length →
      between? line (width (line.take j)) (width line) = some (line.drop j) := by
    intro j hj
    have hall := between?_take line hj
    rwa [List.take_length] at hall
  obtain ⟨start, hstart⟩ : ∃ start, start = charsBefore line m.start := ⟨_, rfl⟩
  obtain ⟨stop, hstop⟩ : ∃ stop, stop = max (charsBefore line m.stop) start := ⟨_, rfl⟩
  have hstartLe : start ≤ line.length := hstart ▸ charsBefore_le_length line _
  have hstopLe : stop ≤ line.length := by
    have := charsBefore_le_length line m.stop
    omega
  unfold cut? cut
  simp only [Option.bind_eq_bind, Option.bind_some, floorBoundary?_eq, ← hstart, width_take_max,
    ← hstop, hfront]
  cases m.pointer with
  | none =>
    simp only [between?_take line (show start ≤ stop by omega), hback stop hstopLe, Option.bind_some]
    rfl
  | some column =>
    obtain ⟨i, hi⟩ : ∃ i, i = max (charsBefore line column) start := ⟨_, rfl⟩
    have hiLe : i ≤ line.length := by
      have := charsBefore_le_length line column
      omega
    obtain ⟨next, hnext⟩ : ∃ next, next = i + ((line.drop i).take 1).length := ⟨_, rfl⟩
    have hnextLe : next ≤ line.length := by
      rw [hnext, List.length_take, List.length_drop]
      omega
    have hone : ∀ rest : List Char, rest.take (rest.take 1).length = rest.take 1 := by
      intro rest
      cases rest <;> rfl
    have htake : line.take next = line.take i ++ (line.drop i).take 1 := by
      rw [hnext, List.take_add, hone]
    have hpoint : (line.take next).drop i = (line.drop i).take 1 := by
      rw [hnext, List.drop_take, Nat.add_sub_cancel_left, hone]
    have hsum : sum? limit (width (line.take i)) (width ((line.drop i).take 1)) =
        some (width (line.take next)) := by
      have hle := width_take_mono line hnextLe
      rw [List.take_length] at hle
      rw [htake, width_append] at hle ⊢
      exact sum?_eq (Nat.le_trans hle h)
    simp only [width_take_max, ← hi, hback i hiLe, hsum, Option.bind_some,
      between?_take line (show start ≤ i by omega), between?_take line (show i ≤ next by omega),
      getD_between?_take line hnextLe, hback (max stop next) (by omega), ← hnext, hpoint]
    rfl

/-! ## 3. Lines by index -/

section Numbered

variable {number start : Nat}

theorem number_of_getElem? {ls : List (List Char)} {i : Nat} {line : SourceLine}
    (h : (numberLines number start ls)[i]? = some line) : line.number = number + i := by
  induction ls generalizing number start i with
  | nil => cases h
  | cons l ls ih =>
    cases i with
    | zero =>
      cases h
      rfl
    | succ i =>
      rw [ih h]
      exact Nat.add_right_comm number 1 i

/-- The lines with numbers from one up to another are a stretch of all lines. -/
theorem filter_numberLines (a b : Nat) (ls : List (List Char)) :
    (numberLines number start ls).filter (fun line => a ≤ line.number && line.number < b) =
      ((numberLines number start ls).take (b - number)).drop (a - number) := by
  induction ls generalizing number start with
  | nil => simp [numberLines]
  | cons l ls ih =>
    rw [numberLines, List.filter_cons, ih]
    by_cases hb : number < b
    · rw [show b - number = b - (number + 1) + 1 by omega, List.take_succ_cons]
      by_cases ha : a ≤ number
      · simp [ha, hb, Nat.sub_eq_zero_of_le ha, Nat.sub_eq_zero_of_le (Nat.le_succ_of_le ha)]
      · rw [show a - number = a - (number + 1) + 1 by omega, List.drop_succ_cons]
        simp [ha]
    · rw [show b - number = 0 by omega, show b - (number + 1) = 0 by omega]
      simp [hb]

theorem zipIdx_eq_map_numberLines (number start : Nat) (ls : List (List Char)) :
    ls.zipIdx number =
      (numberLines (number + 1) start ls).map fun line => (line.text, line.number - 1) := by
  induction ls generalizing number start with
  | nil => rfl
  | cons l ls ih =>
    rw [List.zipIdx_cons, ih (number + 1) (start + width l + 1)]
    rfl

end Numbered

section Shown

variable {source : List Char} {p : Position}

/-- **The lines shown are those between two indices**, the first and the last of the lines with marks,
    each moved by the context. -/
theorem shownLines_of_indices {first last : Nat}
    (hfirst : ((sourceLines source).map (·.marks? p)).findIdx? Option.isSome = some first)
    (hlast : lastIndex? Option.isSome ((sourceLines source).map (·.marks? p)) = some last)
    (context : Nat) : shownLines source p context =
      ((sourceLines source).take (last + context + 1)).drop (first - context) := by
  let isMarked := fun line : SourceLine => (line.marks? p).isSome
  have hfirstMarked : (sourceLines source).findIdx? isMarked = some first := by
    rw [← hfirst, List.findIdx?_map]
    rfl
  have hlastMarked : lastIndex? isMarked (sourceLines source) = some last := by
    rw [← hlast, lastIndex?_map]
    rfl
  obtain ⟨hfirstLt, -⟩ := List.findIdx?_eq_some_iff_getElem.mp hfirstMarked
  have hhead : ((sourceLines source).filter isMarked).head? = some (sourceLines source)[first] := by
    rw [List.head?_filter, List.find?_eq_bind_findIdx?_getElem?, hfirstMarked, Option.bind_some,
      List.getElem?_eq_getElem hfirstLt]
  have hlastLt := lastIndex?_lt hlastMarked
  have hend : ((sourceLines source).filter isMarked).getLast? = some (sourceLines source)[last] := by
    rw [getLast?_filter_eq hlastMarked, List.getElem?_eq_getElem hlastLt]
  have hfirstNumber := number_of_getElem? (List.getElem?_eq_getElem hfirstLt)
  have hlastNumber := number_of_getElem? (List.getElem?_eq_getElem hlastLt)
  have hbetween : (fun line : SourceLine =>
      decide ((sourceLines source)[first].number ≤ line.number + context) &&
        decide (line.number ≤ (sourceLines source)[last].number + context)) =
      fun line => decide (1 + first - context ≤ line.number) &&
        decide (line.number < 1 + last + context + 1) := by
    funext line
    rw [hfirstNumber, hlastNumber]
    congr 1 <;> exact decide_eq_decide.mpr (by omega)
  unfold shownLines
  dsimp only
  rw [hhead, hend]
  dsimp only
  rw [hbetween, sourceLines, filter_numberLines]
  congr 1
  · omega
  · congr 1
    omega

/-- The lines shown as a list cut at these indices gives them. No sum of indices is cut off at a limit
    that is past the number of lines. -/
theorem zipIdx_of_indices {limit first last : Nat}
    (hfirst : ((sourceLines source).map (·.marks? p)).findIdx? Option.isSome = some first)
    (hlast : lastIndex? Option.isSome ((sourceLines source).map (·.marks? p)) = some last)
    (hlimit : (lines source).length ≤ limit) (context : Nat) :
    ((lines source).zipIdx.take
      (min (min (last + context) limit) ((lines source).length - 1) + 1)).drop (first - context) =
        (shownLines source p context).map fun line => (line.text, line.number - 1) := by
  have hlength : (sourceLines source).length = (lines source).length := by
    rw [← List.length_map SourceLine.text, sourceLines, texts_numberLines]
  have htake : (sourceLines source).take
      (min (min (last + context) limit) ((lines source).length - 1) + 1) =
        (sourceLines source).take (last + context + 1) :=
    List.take_eq_take_iff.mpr (by omega)
  have hzip : (lines source).zipIdx =
      (sourceLines source).map fun line => (line.text, line.number - 1) :=
    zipIdx_eq_map_numberLines 0 0 _
  rw [hzip, ← List.map_take, ← List.map_drop, htake, shownLines_of_indices hfirst hlast]

end Shown

/-! ## 4. Messages -/

section Rendered

variable {limit : Nat} {source : List Char}

/-- A text has one line more than bytes at most. -/
theorem length_lines_le (source : List Char) : (lines source).length ≤ width source + 1 := by
  have hcount : source.count '\n' ≤ source.length := List.count_le_length
  have hwidth := length_le_width source
  rw [length_lines, lineCount]
  omega

/-- Every line of a text that is shorter than the limit ends within it, and so does its number. -/
theorem le_of_mem_sourceLines {line : SourceLine} (h : width source < limit)
    (hline : line ∈ sourceLines source) : line.slotEnd ≤ limit ∧ line.number ≤ limit := by
  have hslot := (standsIn_of_mem_sourceLines hline).slotEnd_le
  obtain ⟨hindex, -⟩ := List.getElem?_eq_some_iff.mp (getElem?_of_mem_sourceLines hline)
  have hcount := length_lines_le source
  omega

/-- The rows of a line that is found by its index. -/
theorem rowsAt?_eq {p : Position} {line : SourceLine} (h : width source < limit)
    (hline : line ∈ sourceLines source) (severity : Severity) :
    rowsAt? limit severity ((sourceLines source).map (·.marks? p)) line.text (line.number - 1) =
      some (line.rows p severity) := by
  obtain ⟨hslot, hnumber⟩ := le_of_mem_sourceLines h hline
  have hwidth : width line.text ≤ limit :=
    Nat.le_trans (Nat.le_succ_of_le (Nat.le_add_left ..)) hslot
  obtain ⟨i, hi⟩ := List.mem_iff_getElem?.mp hline
  have hindex : line.number = 1 + i := number_of_getElem? hi
  have hmarks : ((sourceLines source).map (·.marks? p))[line.number - 1]? = some (line.marks? p) := by
    rw [hindex, Nat.add_sub_cancel_left, List.getElem?_map, hi]
    rfl
  have hsum : sum? limit (line.number - 1) 1 = some line.number := by
    rw [sum?_eq (by omega), Nat.sub_add_cancel (by omega)]
  rw [rowsAt?, hsum, hmarks, SourceLine.rows]
  cases line.marks? p with
  | none => rfl
  | some m =>
    simp only [Option.bind_eq_bind, Option.bind_some, m.cut?_eq hwidth]
    rfl

theorem mapM_eq_some {α β : Type} {f : α → Option β} {g : α → β} {as : List α}
    (h : ∀ a ∈ as, f a = some (g a)) : as.mapM f = some (as.map g) := by
  induction as with
  | nil => rfl
  | cons a as ih =>
    obtain ⟨ha, has⟩ := List.forall_mem_cons.mp h
    rw [List.mapM_cons, ha, ih has]
    rfl

/-- **The rows of an excerpt**, if the position ends within the limit. -/
theorem excerptRows?_eq (h : width source < limit) {p : Position} (hstop : p.stop ≤ limit)
    (severity : Severity) (context : Nat) :
    excerptRows? limit source p severity context = some (excerptRows source p severity context) := by
  have hlines : 0 < (lines source).length := List.length_pos_iff.mpr (stretches_ne_nil '\n' source)
  have hlimit : (lines source).length ≤ limit := Nat.le_trans (length_lines_le source) h
  have hmarks : p.marksOf? limit ((lines source).length - 1) 0 0 (lines source) =
      some ((sourceLines source).map (·.marks? p)) :=
    Position.marksOf?_eq hstop 1 (by rw [slots_lines]; omega) (by omega)
  rw [excerptRows?, difference?_eq hlines]
  simp only [Option.bind_eq_bind, Option.bind_some, hmarks]
  cases hfirst : ((sourceLines source).map (·.marks? p)).findIdx? Option.isSome with
  | none =>
    have hmeets : ∀ line ∈ sourceLines source, ¬ line.Meets p := fun line hline hmeets => by
      have hmarked := SourceLine.isSome_marks?_iff.mpr hmeets
      rw [List.findIdx?_eq_none_iff.mp hfirst _ (List.mem_map_of_mem hline)] at hmarked
      cases hmarked
    rw [excerptRows, shownLines_eq_nil hmeets]
    rfl
  | some first =>
    obtain ⟨last, hlast⟩ := exists_lastIndex? hfirst
    have hsum : sum? limit (min (min (last + context) limit) ((lines source).length - 1)) 1 =
        some (min (min (last + context) limit) ((lines source).length - 1) + 1) := sum?_eq (by omega)
    have hrows : (shownLines source p context).mapM (fun line =>
        rowsAt? limit severity ((sourceLines source).map (·.marks? p)) line.text (line.number - 1)) =
          some ((shownLines source p context).map (·.rows p severity)) :=
      mapM_eq_some fun line hline =>
        rowsAt?_eq h ((shownLines_sublist source p context).subset hline) severity
    simp only [hlast, Option.getD_some, hsum, Option.bind_some,
      zipIdx_of_indices hfirst hlast hlimit, List.mapM_map, Function.comp_def, hrows]
    rw [excerptRows, List.flatMap_def]
    rfl

/-- There is a line in every text, and on none has a position marks whose end is past the limit. -/
theorem excerptRows?_eq_none {p : Position} (hstop : limit < p.stop)
    (severity : Severity) (context : Nat) : excerptRows? limit source p severity context = none := by
  obtain ⟨line, rest, hlines⟩ : ∃ line rest, lines source = line :: rest :=
    List.exists_cons_of_ne_nil (stretches_ne_nil '\n' source)
  have hmarks : ∀ last, p.marksOf? limit last 0 0 (lines source) = none := fun last => by
    rw [hlines, Position.marksOf?, Position.marksAt?_eq_none hstop]
    rfl
  rw [excerptRows?]
  simp [hmarks]

/-- **Rendering gets through if and only if the position's end is within the limit.** So of a text that
    is shorter than the limit every message whose end is no greater is rendered, with the text that it
    is to have; and every offset has its place. -/
theorem rendering_succeeds_iff (h : width source < limit) (m : Message) (name : String)
    (options : Presentation) :
    m.rendered? limit name source options =
        (if m.position.stop ≤ limit then some (m.rendered name source options) else none) ∧
      ∀ offset, placeAt? limit source offset = some (placeAt source offset) := by
  refine ⟨?_, placeAt?_eq h⟩
  rw [Message.rendered?, placeAt?_eq h]
  split
  case isTrue hstop =>
    simp only [Option.bind_eq_bind, Option.bind_some, excerptRows?_eq h hstop, m.headed_placeAt]
    rfl
  case isFalse hstop =>
    rw [excerptRows?_eq_none (Nat.lt_of_not_le hstop)]
    rfl

end Rendered

/-- A position that begins inside a character and ends far past the text, all lines shown, and a place
    past the text. -/
theorem rendering_succeeds_inside_character :
    Message.rendered? 18446744073709551615 ⟨"text", .error, .clamped 1 1000 1000⟩ "t" "é\nx".toList
        ⟨false, 18446744073709551615⟩ =
      some "t:1:2: error: text\n 1 | é\n   | ~\n 2 | x\n   | ~^\n".toList ∧
      placeAt? 18446744073709551615 "é\nx".toList 99 = some ⟨2, 2⟩ := by
  have hwidth : width "é\nx".toList < 18446744073709551615 := by decide
  obtain ⟨hrendered, hplace⟩ :=
    rendering_succeeds_iff hwidth ⟨"text", .error, .clamped 1 1000 1000⟩ "t"
    ⟨false, 18446744073709551615⟩
  exact ⟨hrendered.trans (by decide +kernel), (hplace 99).trans (by decide +kernel)⟩

end SourceScan
