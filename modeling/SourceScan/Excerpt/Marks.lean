import SourceScan.Message.Position
import SourceScan.Text.Line

/-!
# Excerpt/Marks.lean -- what a position marks on each line

A position marks a stretch of every line it meets, the newline behind a line counting as its last
byte, and its pointer falls on one of them. Columns are bytes from the start of the line.

* `SourceLine`: a line with its number and its offset in the text; `sourceLines` gives them all.
* `StandsIn`, `Precedes`, `Holds`: a line as a part of its text, lines in their order, and the
  offsets on a line.
* `exists_line_of_le`: every offset is on a line, with the number and the column it has there.
* `Marks`: the stretch of one line, and the column of the pointer if it falls there.
* `SourceLine.marks?`: the marks of a position on a line.
-/

namespace SourceScan

open Text

/-! ## 1. The lines of a text -/

/-- A line of a text: its number from one, the offset where it starts, its text, and whether it is
    the last. -/
structure SourceLine where
  number : Nat
  start : Nat
  text : List Char
  isLast : Bool
deriving DecidableEq, Repr

/-- Number lines and give them their offsets. -/
def numberLines (number start : Nat) : List (List Char) → List SourceLine
  | [] => []
  | l :: ls => ⟨number, start, l, ls.isEmpty⟩ :: numberLines (number + 1) (start + width l + 1) ls

/-- The lines of a text. -/
def sourceLines (source : List Char) : List SourceLine :=
  numberLines 1 0 (lines source)

namespace SourceLine

/-- The offset behind the newline that ends the line. -/
def slotEnd (line : SourceLine) : Nat :=
  line.start + width line.text + 1

/-- An offset on a line: in its text, or at the newline or the end of the text behind it. -/
structure Holds (line : SourceLine) (offset : Nat) : Prop where
  start_le : line.start ≤ offset
  lt_slotEnd : offset < line.slotEnd

theorem holds_iff {line : SourceLine} {offset : Nat} :
    line.Holds offset ↔ line.start ≤ offset ∧ offset < line.slotEnd :=
  ⟨fun h => ⟨h.start_le, h.lt_slotEnd⟩, fun h => ⟨h.1, h.2⟩⟩

/-- A line ahead of another: its newline at most is what the other begins behind. -/
structure Precedes (a b : SourceLine) : Prop where
  number_lt : a.number < b.number
  slotEnd_le : a.slotEnd ≤ b.start

/-- What a line can stand behind: nothing or a newline. -/
inductive IsFront : List Char → Prop
  | nil : IsFront []
  | newline (ahead : List Char) : IsFront (ahead ++ ['\n'])

/-- A line as a part of a text: the last one is what is left, any other ends in a newline. -/
inductive StandsIn (source : List Char) : SourceLine → Prop
  | last {number : Nat} {front text : List Char} (hfront : IsFront front) (htext : '\n' ∉ text)
      (hsource : source = front ++ text) : StandsIn source ⟨number, width front, text, true⟩
  | newline {number : Nat} {front text rest : List Char} (hfront : IsFront front)
      (htext : '\n' ∉ text) (hsource : source = front ++ text ++ '\n' :: rest) :
      StandsIn source ⟨number, width front, text, false⟩

end SourceLine

section Numbered

variable {number start : Nat}

theorem numberLines_of_notMem {cs : List Char} (h : '\n' ∉ cs) :
    numberLines number start (lines cs) = [⟨number, start, cs, true⟩] := by
  rw [lines_of_notMem h]
  rfl

theorem numberLines_append_newline {line : List Char} (h : '\n' ∉ line) (rest : List Char) :
    numberLines number start (lines (line ++ '\n' :: rest)) =
      ⟨number, start, line, false⟩ ::
        numberLines (number + 1) (start + width line + 1) (lines rest) := by
  have hmore : (lines rest).isEmpty = false :=
    List.isEmpty_eq_false_iff.mpr (stretches_ne_nil '\n' rest)
  rw [lines_append_newline h, numberLines, hmore]

theorem le_of_mem_numberLines {ls : List (List Char)} {line : SourceLine}
    (h : line ∈ numberLines number start ls) : number ≤ line.number ∧ start ≤ line.start := by
  induction ls generalizing number start with
  | nil => cases h
  | cons l ls ih =>
    rcases List.mem_cons.mp h with rfl | h
    · exact ⟨Nat.le_refl _, Nat.le_refl _⟩
    · obtain ⟨hnumber, hstart⟩ := ih h
      omega

theorem pairwise_numberLines (ls : List (List Char)) :
    (numberLines number start ls).Pairwise SourceLine.Precedes := by
  induction ls generalizing number start with
  | nil => exact .nil
  | cons l ls ih =>
    refine .cons (fun line hline => ?_) ih
    obtain ⟨hnumber, hstart⟩ := le_of_mem_numberLines hline
    exact ⟨hnumber, hstart⟩

theorem getElem?_of_mem_numberLines {ls : List (List Char)} {line : SourceLine}
    (h : line ∈ numberLines number start ls) : ls[line.number - number]? = some line.text := by
  induction ls generalizing number start with
  | nil => cases h
  | cons l ls ih =>
    rcases List.mem_cons.mp h with rfl | h
    · rw [Nat.sub_self]
      rfl
    · have hnumber := (le_of_mem_numberLines h).1
      rw [show line.number - number = line.number - (number + 1) + 1 by omega,
        List.getElem?_cons_succ]
      exact ih h

theorem standsIn_of_mem_numberLines {source front cs : List Char} {line : SourceLine}
    (hsource : source = front ++ cs) (hfront : SourceLine.IsFront front)
    (h : line ∈ numberLines number (width front) (lines cs)) : line.StandsIn source := by
  induction cs using line_induction generalizing number front with
  | last text htext =>
    rw [numberLines_of_notMem htext] at h
    cases List.mem_singleton.mp h
    exact .last hfront htext hsource
  | newline text rest htext ih =>
    rw [numberLines_append_newline htext] at h
    rw [← List.append_assoc] at hsource
    rcases List.mem_cons.mp h with rfl | h
    · exact .newline hfront htext hsource
    · have hwidth : width front + width text + 1 = width (front ++ text ++ ['\n']) := by
        rw [width_append, width_append]
        rfl
      rw [hwidth] at h
      rw [List.append_cons] at hsource
      exact ih hsource (.newline _) h

theorem exists_numberedLine_of_le (number start : Nat) {cs : List Char} {offset : Nat}
    (h : offset ≤ width cs) : ∃ line ∈ numberLines number start (lines cs),
      line.Holds (start + offset) ∧
        Place.after ⟨number, 1⟩ cs offset = ⟨line.number, start + offset - line.start + 1⟩ := by
  induction cs using line_induction generalizing number start offset with
  | last text htext =>
    rw [numberLines_of_notMem htext]
    refine ⟨_, List.mem_singleton_self _, ⟨Nat.le_add_right .., ?_⟩, ?_⟩
    · show start + offset < start + width text + 1
      omega
    · have hafter := Place.after_of_le htext h ⟨number, 1⟩ []
      rw [List.append_nil] at hafter
      rw [hafter, Nat.add_sub_cancel_left, Nat.add_comm 1]
  | newline text rest htext ih =>
    rw [numberLines_append_newline htext]
    by_cases hle : offset ≤ width text
    · refine ⟨_, List.mem_cons_self, ⟨Nat.le_add_right .., ?_⟩, ?_⟩
      · show start + offset < start + width text + 1
        omega
      · rw [Place.after_of_le htext hle, Nat.add_sub_cancel_left, Nat.add_comm 1]
    · obtain ⟨more, rfl⟩ := Nat.exists_eq_add_of_lt (Nat.lt_of_not_le hle)
      have hnewline : '\n'.utf8Size = 1 := rfl
      rw [width_append, width_cons] at h
      obtain ⟨line, hline, ⟨hstart, hend⟩, hplace⟩ :=
        ih (number + 1) (start + width text + 1) (show more ≤ width rest by omega)
      refine ⟨line, List.mem_cons_of_mem _ hline, ⟨by omega, by omega⟩, ?_⟩
      rw [Nat.add_right_comm, Place.after_newline htext, hplace]
      congr 1
      omega

end Numbered

section Lines

variable {source : List Char} {line : SourceLine}

/-- **The lines of a text come in its order**, none over another. -/
theorem pairwise_sourceLines (source : List Char) :
    (sourceLines source).Pairwise SourceLine.Precedes :=
  pairwise_numberLines _

/-- An offset on a line is on none of the lines ahead of it and behind it. -/
theorem not_holds_of_pairwise {above below : List SourceLine} {offset : Nat}
    (h : (above ++ line :: below).Pairwise SourceLine.Precedes) (hholds : line.Holds offset)
    {other : SourceLine} (hother : other ∈ above ++ below) : ¬ other.Holds offset := by
  obtain ⟨hle, hlt⟩ := hholds
  obtain ⟨-, hbelow, habove⟩ := List.pairwise_append.mp h
  intro ⟨hstart, hend⟩
  rcases List.mem_append.mp hother with hother | hother
  · have hslot := (habove other hother line List.mem_cons_self).slotEnd_le
    omega
  · have hslot := ((List.pairwise_cons.mp hbelow).1 other hother).slotEnd_le
    omega

/-- **A line stands in its text where it says.** -/
theorem standsIn_of_mem_sourceLines (h : line ∈ sourceLines source) : line.StandsIn source :=
  standsIn_of_mem_numberLines (List.nil_append source).symm .nil h

/-- The number of a line tells which of the lines it is. -/
theorem getElem?_of_mem_sourceLines (h : line ∈ sourceLines source) :
    (lines source)[line.number - 1]? = some line.text :=
  getElem?_of_mem_numberLines h

/-- **Every offset of a text is on one of its lines**, and has the place there that the line's number
    and start give it. -/
theorem exists_line_of_le {offset : Nat} (h : offset ≤ width source) :
    ∃ line ∈ sourceLines source, line.Holds offset ∧
      placeAt source offset = ⟨line.number, offset - line.start + 1⟩ := by
  have hline := exists_numberedLine_of_le 1 0 h
  rwa [Nat.zero_add] at hline

namespace SourceLine.StandsIn

theorem slotEnd_le (h : line.StandsIn source) : line.slotEnd ≤ width source + 1 := by
  cases h with
  | last _ _ hsource =>
    rw [hsource, width_append]
    exact Nat.le_refl _
  | newline _ _ hsource =>
    rw [hsource, width_append, width_append]
    exact Nat.succ_le_succ (Nat.le_add_right ..)

/-- The last line ends with its text. -/
theorem slotEnd_of_isLast (h : line.StandsIn source) (hlast : line.isLast = true) :
    line.slotEnd = width source + 1 := by
  cases h with
  | last _ _ hsource =>
    rw [hsource, width_append]
    rfl
  | newline => cases hlast

/-- Any other line ends in a newline. -/
theorem charAt?_slotEnd (h : line.StandsIn source) (hlast : ¬ line.isLast = true) :
    line.slotEnd ≤ width source ∧ charAt? source (line.slotEnd - 1) = some '\n' := by
  cases h with
  | last => exact absurd rfl hlast
  | @newline number front text rest _ _ hsource =>
    have hend : (⟨number, width front, text, false⟩ : SourceLine).slotEnd =
        width (front ++ text) + 1 := by
      rw [width_append]
      rfl
    rw [hend, Nat.add_sub_cancel, hsource, width_append (front ++ text), width_cons]
    refine ⟨Nat.add_le_add_left (Nat.le_add_right ..) _, ?_⟩
    exact charAt?_of_tailAt (tailAt_width_append ..)

/-- A line that is not at the front of its text is behind a newline. -/
theorem charAt?_start (h : line.StandsIn source) (hstart : line.start ≠ 0) :
    charAt? source (line.start - 1) = some '\n' := by
  have hbehind : ∀ {front rest : List Char}, IsFront front → width front ≠ 0 →
      charAt? (front ++ rest) (width front - 1) = some '\n' := by
    intro front rest hfront hne
    cases hfront with
    | nil => exact absurd rfl hne
    | newline ahead =>
      have hwidth : width (ahead ++ ['\n']) - 1 = width ahead := by
        rw [width_append]
        exact Nat.add_sub_cancel ..
      rw [hwidth, List.append_assoc]
      exact charAt?_of_tailAt (tailAt_width_append ..)
  cases h with
  | last hfront _ hsource =>
    rw [hsource]
    exact hbehind hfront hstart
  | newline hfront _ hsource =>
    rw [hsource, List.append_assoc]
    exact hbehind hfront hstart

/-- A newline on a line is the one that ends it. -/
theorem slotEnd_of_newline (h : line.StandsIn source) {offset : Nat}
    (hnewline : charAt? source offset = some '\n') (hholds : line.Holds offset) :
    offset + 1 = line.slotEnd := by
  have hends : ∀ {front text rest : List Char}, '\n' ∉ text → source = front ++ (text ++ rest) →
      width front ≤ offset → offset < width front + width text + 1 →
        offset + 1 = width front + width text + 1 := by
    intro front text rest htext hsource hle hlt
    have hchar : charAt? (text ++ rest) (offset - width front) = some '\n' := by
      rw [← hnewline, hsource]
      unfold charAt?
      rw [← tailAt_append front, Nat.add_sub_cancel' hle]
    have hpast : width text ≤ offset - width front :=
      Nat.le_of_not_lt fun hinside => htext (mem_of_charAt? hchar hinside)
    omega
  cases h with
  | @last _ _ text _ htext hsource =>
    rw [← List.append_nil text] at hsource
    exact hends htext hsource hholds.start_le hholds.lt_slotEnd
  | newline _ htext hsource =>
    rw [List.append_assoc] at hsource
    exact hends htext hsource hholds.start_le hholds.lt_slotEnd

/-- Where a text may be cut on a line, the line may be cut. -/
theorem isBoundary_text (h : line.StandsIn source) {offset : Nat} (hholds : line.Holds offset)
    (hboundary : IsBoundary source offset) : IsBoundary line.text (offset - line.start) := by
  have hcut : ∀ {front text rest : List Char}, source = front ++ (text ++ rest) →
      width front ≤ offset → offset < width front + width text + 1 →
        IsBoundary text (offset - width front) := by
    intro front text rest hsource hbegin hend
    obtain ⟨-, htorn⟩ := hboundary
    rw [hsource, ← Nat.add_sub_cancel' hbegin, tailAt_append] at htorn
    have hle : offset - width front ≤ width text := by omega
    have hinside : offset - width front ≤ width (text ++ rest) := by
      rw [width_append]
      omega
    exact isBoundary_of_append hle ⟨hinside, htorn⟩
  cases h with
  | @last _ _ text _ _ hsource =>
    rw [← List.append_nil text] at hsource
    exact hcut hsource hholds.start_le hholds.lt_slotEnd
  | newline _ _ hsource =>
    rw [List.append_assoc] at hsource
    exact hcut hsource hholds.start_le hholds.lt_slotEnd

end SourceLine.StandsIn

end Lines

/-! ## 2. The marks of a position -/

/-- A stretch of a line, from one column up to another, and the column of the pointer. The stretch
    may reach one column past the line's text, over its newline. -/
structure Marks where
  start : Nat
  stop : Nat
  pointer : Option Nat
deriving DecidableEq, Repr

namespace SourceLine

/-- Whether the pointer of a position falls on the line: it is on the line or its newline; or it is
    farther on, and no later line can carry it, since the line is the last or the position stops
    at it. -/
def carriesPointer (line : SourceLine) (p : Position) : Bool :=
  line.start ≤ p.target && (p.target < line.slotEnd || line.isLast || p.stop ≤ line.slotEnd)

/-- The column of the pointer on the line, at the end of its text at most. -/
def pointerColumn (line : SourceLine) (p : Position) : Nat :=
  min (p.target - line.start) (width line.text)

/-- What a position marks on the line, if it meets it. -/
def marks? (line : SourceLine) (p : Position) : Option Marks :=
  let start := p.start - line.start
  let stop := min (p.stop - line.start) (width line.text + 1)
  if p.start < line.slotEnd ∧ line.start < p.stop ∧ start < stop then
    some ⟨start, stop, if line.carriesPointer p then some (line.pointerColumn p) else none⟩
  else none

/-- A position meets a line: it is on the line or its newline, and not only at a boundary. -/
structure Meets (line : SourceLine) (p : Position) : Prop where
  length_pos : 0 < p.length
  start_lt : p.start < line.slotEnd
  lt_stop : line.start < p.stop

theorem marks?_of_meets {line : SourceLine} {p : Position} (h : line.Meets p) :
    line.marks? p = some
      { start := p.start - line.start
        stop := min (p.stop - line.start) (width line.text + 1)
        pointer := if line.carriesPointer p then some (line.pointerColumn p) else none } := by
  obtain ⟨hlength, hstart, hstop⟩ := h
  have hcolumns : p.start - line.start < min (p.stop - line.start) (width line.text + 1) := by
    unfold slotEnd at hstart
    unfold Position.stop at hstop ⊢
    omega
  unfold marks?
  dsimp only
  rw [if_pos ⟨hstart, hstop, hcolumns⟩]

/-- **The lines a position marks are those it meets.** -/
theorem isSome_marks?_iff {line : SourceLine} {p : Position} :
    (line.marks? p).isSome = true ↔ line.Meets p := by
  constructor
  · intro h
    unfold marks? at h
    dsimp only at h
    split at h
    case isTrue hmeets =>
      obtain ⟨hstart, hstop, hcolumns⟩ := hmeets
      refine ⟨?_, hstart, hstop⟩
      unfold Position.stop at hcolumns
      omega
    case isFalse => cases h
  · intro h
    rw [marks?_of_meets h]
    rfl

end SourceLine

end SourceScan
