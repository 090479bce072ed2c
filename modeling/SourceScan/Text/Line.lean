import SourceScan.Text.Width

/-!
# Text/Line.lean -- the lines of a text

Lines are what stands between newlines, so a text has one line more than it has newlines, and the
empty text has one empty line.

* `stretches mark`: what stands between the occurrences of a character.
* `lines`: the lines without their newlines; `line_induction`: induction by lines.
* `placeAt cs n`: line and column of a byte offset, both counted from one, the column in bytes; an
  offset past the end counts as the end.
-/

namespace SourceScan.Text

/-- The stretches between the occurrences of a mark. -/
def stretches (mark : Char) : List Char → List (List Char)
  | [] => [[]]
  | c :: cs =>
    if c = mark then [] :: stretches mark cs
    else match stretches mark cs with
      | [] => [[c]]
      | l :: ls => (c :: l) :: ls

theorem stretches_ne_nil (mark : Char) (cs : List Char) : stretches mark cs ≠ [] := by
  cases cs with
  | nil => simp [stretches]
  | cons c cs =>
    unfold stretches
    split
    · simp
    · split <;> simp

/-- **There is one stretch more than there are marks.** -/
theorem length_stretches (mark : Char) (cs : List Char) :
    (stretches mark cs).length = cs.count mark + 1 := by
  induction cs with
  | nil => rfl
  | cons c cs ih =>
    unfold stretches
    by_cases h : c = mark
    · simp [h, ih]
    · have hne := stretches_ne_nil mark cs
      cases hl : stretches mark cs with
      | nil => exact absurd hl hne
      | cons l ls =>
        rw [hl] at ih
        have hc : (c == mark) = false := by simpa using h
        simpa [h, List.count_cons, hc] using ih

/-- The lines of a text: the stretches between its newlines. -/
def lines (cs : List Char) : List (List Char) :=
  stretches '\n' cs

/-- One more than the number of newlines. -/
def lineCount (cs : List Char) : Nat :=
  cs.count '\n' + 1

theorem length_lines (cs : List Char) : (lines cs).length = lineCount cs :=
  length_stretches '\n' cs

section Lines

variable {line : List Char}

/-- A text without a newline is one line. -/
theorem lines_of_notMem (h : '\n' ∉ line) : lines line = [line] := by
  induction line with
  | nil => rfl
  | cons c line ih =>
    have hc := List.ne_of_not_mem_cons h
    have h := List.not_mem_of_not_mem_cons h
    unfold lines stretches
    rw [if_neg hc.symm, show stretches '\n' line = [line] from ih h]

/-- **Up to its first newline a text is a line**; behind it come the lines of the rest. -/
theorem lines_append_newline (h : '\n' ∉ line) (rest : List Char) :
    lines (line ++ '\n' :: rest) = line :: lines rest := by
  induction line with
  | nil =>
    unfold lines
    rw [List.nil_append, stretches, if_pos rfl]
  | cons c line ih =>
    have hc := List.ne_of_not_mem_cons h
    have h := List.not_mem_of_not_mem_cons h
    unfold lines
    rw [List.cons_append, stretches, if_neg hc.symm,
      show stretches '\n' (line ++ '\n' :: rest) = line :: lines rest from ih h]
    rfl

/-- Texts without newlines, each of them ended by one, are the lines of what they make up. -/
theorem lines_flatMap_newline {α : Type} {f : α → List Char} {as : List α}
    (h : ∀ a ∈ as, '\n' ∉ f a) : lines (as.flatMap fun a => f a ++ ['\n']) = as.map f ++ [[]] := by
  induction as with
  | nil => rfl
  | cons a as ih =>
    rw [List.flatMap_cons, List.append_assoc, List.singleton_append,
      lines_append_newline (h a List.mem_cons_self),
      ih fun b hb => h b (List.mem_cons_of_mem a hb)]
    rfl

/-- Every text is one line, or a line ahead of a text: induction by lines. -/
theorem line_induction {P : List Char → Prop} (last : ∀ line, '\n' ∉ line → P line)
    (newline : ∀ line rest, '\n' ∉ line → P rest → P (line ++ '\n' :: rest)) (cs : List Char) :
    P cs := by
  by_cases h : '\n' ∈ cs
  · obtain ⟨line, rest, hcs, hline⟩ := List.eq_append_cons_of_mem h
    have hlt : rest.length < cs.length := by
      rw [hcs, List.length_append, List.length_cons]
      omega
    rw [hcs]
    exact newline line rest hline (line_induction last newline rest)
  · exact last cs h
termination_by cs.length

end Lines

/-- A place in a text: line and column, both from one, the column in bytes. -/
structure Place where
  line : Nat
  column : Nat
deriving DecidableEq, Repr

/-- Walk from the place `here` over `offset` more bytes. -/
def Place.after (here : Place) : List Char → Nat → Place
  | [], _ => here
  | c :: cs, offset =>
    if offset < c.utf8Size then ⟨here.line, here.column + offset⟩
    else if c = '\n' then Place.after ⟨here.line + 1, 1⟩ cs (offset - c.utf8Size)
    else Place.after ⟨here.line, here.column + c.utf8Size⟩ cs (offset - c.utf8Size)

theorem Place.after_zero (here : Place) (cs : List Char) : here.after cs 0 = here := by
  cases cs with
  | nil => rfl
  | cons c cs => rw [Place.after, if_pos c.utf8Size_pos, Nat.add_zero]

/-- Up to the end of its line a place moves on by columns. -/
theorem Place.after_of_le {line : List Char} {offset : Nat} (h : '\n' ∉ line)
    (hle : offset ≤ width line) (here : Place) (rest : List Char) :
    here.after (line ++ rest) offset = ⟨here.line, here.column + offset⟩ := by
  induction line generalizing here offset with
  | nil =>
    cases Nat.le_zero.mp hle
    rw [Place.after_zero, Nat.add_zero]
  | cons c line ih =>
    have hc := List.ne_of_not_mem_cons h
    have h := List.not_mem_of_not_mem_cons h
    rw [width_cons] at hle
    rw [List.cons_append, Place.after]
    by_cases hlt : offset < c.utf8Size
    · rw [if_pos hlt]
    · rw [if_neg hlt, if_neg hc.symm, ih h (by omega)]
      show Place.mk here.line (here.column + c.utf8Size + (offset - c.utf8Size)) = _
      rw [Nat.add_assoc, Nat.add_sub_cancel' (Nat.le_of_not_lt hlt)]

/-- Behind a newline a place moves on from the front of the next line. -/
theorem Place.after_newline {line : List Char} (h : '\n' ∉ line) (here : Place)
    (rest : List Char) (offset : Nat) :
    here.after (line ++ '\n' :: rest) (width line + 1 + offset) =
      Place.after ⟨here.line + 1, 1⟩ rest offset := by
  induction line generalizing here with
  | nil =>
    have hsize : '\n'.utf8Size = 1 := rfl
    rw [List.nil_append, width_nil, Nat.zero_add, Place.after, hsize, if_neg (by omega),
      if_pos rfl, Nat.add_sub_cancel_left]
  | cons c line ih =>
    have hc := List.ne_of_not_mem_cons h
    have h := List.not_mem_of_not_mem_cons h
    rw [List.cons_append, width_cons, Place.after, if_neg (by omega), if_neg hc.symm,
      show c.utf8Size + width line + 1 + offset - c.utf8Size = width line + 1 + offset by omega,
      ih h]

/-- Behind the end of a text a walk gets no further. -/
theorem Place.after_of_width_le {cs : List Char} {offset : Nat} (h : width cs ≤ offset)
    (here : Place) : here.after cs offset = here.after cs (width cs) := by
  induction cs generalizing here offset with
  | nil => rfl
  | cons c cs ih =>
    rw [width_cons] at h
    have hsize : ¬ offset < c.utf8Size := by omega
    have hend : ¬ c.utf8Size + width cs < c.utf8Size := by omega
    have hmore : width cs ≤ offset - c.utf8Size := by omega
    rw [Place.after, width_cons, if_neg hsize, Place.after, if_neg hend, Nat.add_sub_cancel_left]
    simp only [ih hmore]

/-- The place of byte `offset`; an offset past the end has the place of the end. -/
def placeAt (cs : List Char) (offset : Nat) : Place :=
  Place.after ⟨1, 1⟩ cs offset

/-- In a text without a newline every place is on the first line. -/
theorem placeAt_of_notMem {cs : List Char} {offset : Nat} (h : '\n' ∉ cs)
    (hle : offset ≤ width cs) : placeAt cs offset = ⟨1, offset + 1⟩ := by
  have hafter := Place.after_of_le h hle ⟨1, 1⟩ []
  rwa [List.append_nil, Nat.add_comm] at hafter

end SourceScan.Text
