import SourceScan.Excerpt.Marks
import SourceScan.SourceUnit

/-!
# Proofs/Places.lean -- offsets and places

The place of an offset is found by a walk over the text, and the lines of a text by cutting it at its
newlines. Both tell the same: the bytes of the lines ahead of a place, each with its newline, and the
columns ahead of it make up the offset.

* `slots`: the bytes of lines with their newlines; `Place.Ahead`: the order of reading.
* `IsPlace`: a place among the lines of a text, and the offset it stands for.
* `offset_lt_of_ahead`: places ahead of each other stand for offsets in the same order, so that every
  offset has one place.
* **`isPlace_iff_placeAt`**: offsets and places are in order with each other, one for one.
-/

namespace SourceScan

open Text

/-! ## 1. Lines ahead of a place -/

/-- The bytes of lines, each with the newline behind it. -/
def slots : List (List Char) → Nat
  | [] => 0
  | l :: ls => width l + 1 + slots ls

theorem slots_append (as bs : List (List Char)) : slots (as ++ bs) = slots as + slots bs := by
  induction as with
  | nil => rw [List.nil_append, slots, Nat.zero_add]
  | cons a as ih =>
    rw [List.cons_append, slots, slots, ih]
    omega

/-- The first lines of some take no more bytes than more of them. -/
theorem slots_take_mono (ls : List (List Char)) {i j : Nat} (h : i ≤ j) :
    slots (ls.take i) ≤ slots (ls.take j) := by
  have htake := List.take_append_drop i (ls.take j)
  rw [List.take_take, Nat.min_eq_left h] at htake
  rw [← htake, slots_append]
  exact Nat.le_add_right ..

theorem slots_take_succ {ls : List (List Char)} {i : Nat} {line : List Char}
    (h : ls[i]? = some line) : slots (ls.take (i + 1)) = slots (ls.take i) + (width line + 1) := by
  rw [List.take_add_one, h, slots_append]
  rfl

/-- **The lines of a text take its bytes**, and one more for a newline behind the last of them. -/
theorem slots_lines (cs : List Char) : slots (lines cs) = width cs + 1 := by
  induction cs using line_induction with
  | last line hline =>
    rw [lines_of_notMem hline]
    rfl
  | newline line rest hline ih =>
    have hnewline : '\n'.utf8Size = 1 := rfl
    rw [lines_append_newline hline, slots, ih, width_append, width_cons]
    omega

/-- A line starts behind the lines ahead of it. -/
theorem start_of_mem_numberLines {number start : Nat} {ls : List (List Char)} {line : SourceLine}
    (h : line ∈ numberLines number start ls) :
    line.start = start + slots (ls.take (line.number - number)) := by
  induction ls generalizing number start with
  | nil => cases h
  | cons l ls ih =>
    rcases List.mem_cons.mp h with rfl | h
    · rw [Nat.sub_self, List.take_zero]
      rfl
    · have hnumber := (le_of_mem_numberLines h).1
      rw [ih h, show line.number - number = line.number - (number + 1) + 1 by omega,
        List.take_succ_cons, slots]
      omega

/-! ## 2. Places -/

/-- A place ahead of another: on a line ahead of the other's, or on the same line in a column ahead. -/
def Text.Place.Ahead (a b : Place) : Prop :=
  a.line < b.line ∨ a.line = b.line ∧ a.column < b.column

theorem Text.Place.ahead_or_eq (a b : Place) : a.Ahead b ∨ a = b ∨ b.Ahead a := by
  obtain ⟨aline, acolumn⟩ := a
  obtain ⟨bline, bcolumn⟩ := b
  unfold Place.Ahead
  rw [Place.mk.injEq]
  dsimp only
  omega

/-- A place among the lines of a text, its column on the line's text or one behind it; the offset it
    stands for is what the lines ahead take, with the columns ahead. -/
structure IsPlace (source : List Char) (offset : Nat) (place : Place) : Prop where
  line_pos : 1 ≤ place.line
  line_le : place.line ≤ (lines source).length
  column_pos : 1 ≤ place.column
  column_le : ∀ line ∈ (lines source)[place.line - 1]?, place.column ≤ width line + 1
  offset_eq : slots ((lines source).take (place.line - 1)) + (place.column - 1) = offset

section Places

variable {source : List Char} {offset : Nat}

/-- A place is on a line that ends behind it. -/
theorem IsPlace.lt_slots {place : Place} (h : IsPlace source offset place) :
    offset < slots ((lines source).take place.line) := by
  obtain ⟨hline, hlines, hcolumn, hwidth, rfl⟩ := h
  have hlt : place.line - 1 < (lines source).length := by omega
  have hsucc := slots_take_succ (List.getElem?_eq_getElem hlt)
  have hle := hwidth _ (List.getElem?_eq_getElem hlt)
  rw [Nat.sub_add_cancel hline] at hsucc
  omega

theorem IsPlace.offset_le {place : Place} (h : IsPlace source offset place) :
    offset ≤ width source := by
  have hlt := h.lt_slots
  have hle := slots_take_mono (lines source) h.line_le
  rw [List.take_length, slots_lines] at hle
  omega

/-- **Of two places the one ahead stands for the lesser offset.** -/
theorem offset_lt_of_ahead {offset' : Nat} {a b : Place} (ha : IsPlace source offset a)
    (hb : IsPlace source offset' b) (h : a.Ahead b) : offset < offset' := by
  have hacolumn := ha.column_pos
  have haoffset := ha.offset_eq
  have hboffset := hb.offset_eq
  rcases h with hline | ⟨hline, hcolumn⟩
  · have hlt := ha.lt_slots
    have hle := slots_take_mono (lines source) (show a.line ≤ b.line - 1 by omega)
    omega
  · rw [hline] at haoffset
    omega

/-- So an offset has no more than one place. -/
theorem IsPlace.unique {a b : Place} (ha : IsPlace source offset a) (hb : IsPlace source offset b) :
    a = b := by
  rcases a.ahead_or_eq b with h | h | h
  · exact absurd (offset_lt_of_ahead ha hb h) (Nat.lt_irrefl _)
  · exact h
  · exact absurd (offset_lt_of_ahead hb ha h) (Nat.lt_irrefl _)

/-- **The walk to an offset of a text ends at its place.** -/
theorem isPlace_placeAt (h : offset ≤ width source) :
    IsPlace source offset (placeAt source offset) := by
  obtain ⟨line, hline, hholds, hplace⟩ := exists_line_of_le h
  have htext := getElem?_of_mem_sourceLines hline
  have hnumber : 1 ≤ line.number := (le_of_mem_numberLines hline).1
  have hlt : line.number - 1 < (lines source).length := (List.getElem?_eq_some_iff.mp htext).1
  have hstart := start_of_mem_numberLines hline
  have hslot : line.slotEnd = line.start + width line.text + 1 := rfl
  obtain ⟨hle, hend⟩ := hholds
  rw [hplace]
  refine ⟨hnumber, Nat.le_of_pred_lt hlt, Nat.le_add_left .., fun text hmem => ?_, ?_⟩
  · obtain rfl : line.text = text := Option.some.inj (htext.symm.trans hmem)
    dsimp only
    omega
  · dsimp only
    omega

end Places

/-- **Offsets and places are in order with each other, one for one.** The place of an offset of a text
    is the only one that stands for it, and every place among the lines is that of an offset; farther
    on comes the farther offset, up to the end of the text, where all places are one. A unit counts as
    many lines as there are. -/
theorem isPlace_iff_placeAt (source : String) :
    (∀ offset place, IsPlace source.toList offset place ↔
      offset ≤ width source.toList ∧ placeAt source.toList offset = place) ∧
    (∀ offset offset', offset < offset' → offset' ≤ width source.toList →
      (placeAt source.toList offset).Ahead (placeAt source.toList offset')) ∧
    (∀ offset, width source.toList ≤ offset →
      placeAt source.toList offset = placeAt source.toList (width source.toList)) ∧
    ∀ u : SourceUnit, u.source = source → u.refresh.lineCount = (lines source.toList).length := by
  refine ⟨fun offset place => ⟨fun h => ?_, fun ⟨hle, heq⟩ => heq ▸ isPlace_placeAt hle⟩,
    fun offset offset' hlt hle => ?_, fun offset h => Place.after_of_width_le h _, fun u hu => ?_⟩
  · exact ⟨h.offset_le, (isPlace_placeAt h.offset_le).unique h⟩
  · have hfront := isPlace_placeAt (Nat.le_trans (Nat.le_of_lt hlt) hle)
    have hback := isPlace_placeAt hle
    rcases (placeAt source.toList offset).ahead_or_eq (placeAt source.toList offset') with h | h | h
    · exact h
    · -- one place for both offsets
      have hsame := hfront.offset_eq.symm.trans (h ▸ hback.offset_eq)
      omega
    · have hgt := offset_lt_of_ahead hback hfront h
      omega
  · rw [length_lines, ← hu]
    rfl

/-- The front of an empty line, the newline ahead of it, and an offset past the end. -/
theorem isPlace_iff_placeAt_empty_line :
    IsPlace "ab\n\nc".toList 3 ⟨2, 1⟩ ∧
      (placeAt "ab\n\nc".toList 2).Ahead (placeAt "ab\n\nc".toList 3) ∧
      placeAt "ab\n\nc".toList 99 = placeAt "ab\n\nc".toList 5 ∧
      (SourceUnit.fresh "t" "ab\n\nc").refresh.lineCount = 3 := by
  obtain ⟨hplace, hahead, hend, hcount⟩ := isPlace_iff_placeAt "ab\n\nc"
  refine ⟨(hplace 3 ⟨2, 1⟩).mpr ⟨by decide, by decide⟩, hahead 2 3 (by decide) (by decide),
    hend 99 (by decide), (hcount _ rfl).trans (by decide)⟩

end SourceScan
