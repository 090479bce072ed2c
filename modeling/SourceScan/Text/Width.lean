/-!
# Text/Width.lean -- the bytes of a text, and what stands at a byte offset

A text is a list of characters. Every offset, length and column of this library counts the bytes
of its UTF-8 form, so this file fixes the passage between characters and bytes:

* `width cs`: how many bytes the characters take; `encode cs`: the bytes themselves.
* `tailAt cs n`: what is left from offset `n` on. An offset inside a character leaves some of that
  character's bytes (`Tail.torn`), which belong to no character, and then whole characters.
* `IsBoundary cs n`: an offset between characters, where a text may be cut.
* `charAt?`, `byteAt`, `slice`, `runEnd`: reading at offsets that need not lie inside the text.
* `charsBefore line n`: how many characters end at or before column `n`.

Stages that walk over a text do not use offsets for reading: they take the list from the front and
carry the offset along. Offsets are resolved here only where a caller hands one in.
-/

namespace SourceScan.Text

/-! ## 1. Width -/

/-- The number of bytes of a text. -/
def width (cs : List Char) : Nat :=
  cs.foldr (fun c n => c.utf8Size + n) 0

@[simp] theorem width_nil : width [] = 0 := rfl

@[simp] theorem width_cons (c : Char) (cs : List Char) :
    width (c :: cs) = c.utf8Size + width cs := rfl

@[simp] theorem width_append (as bs : List Char) : width (as ++ bs) = width as + width bs := by
  induction as with
  | nil => rw [List.nil_append, width_nil, Nat.zero_add]
  | cons c as ih => rw [List.cons_append, width_cons, width_cons, ih, Nat.add_assoc]

theorem width_take_add_drop (cs : List Char) (n : Nat) :
    width (cs.take n) + width (cs.drop n) = width cs := by
  rw [← width_append, List.take_append_drop]

/-- A part of a text is any smaller part and what is left of it. -/
theorem take_append_drop_take {j k : Nat} (h : j ≤ k) (cs : List Char) :
    cs.take j ++ (cs.take k).drop j = cs.take k := by
  have htake : (cs.take k).take j = cs.take j := by rw [List.take_take, Nat.min_eq_left h]
  rw [← htake, List.take_append_drop]

/-- A text has no more characters than bytes, since every character takes a byte at least. -/
theorem length_le_width : (cs : List Char) → cs.length ≤ width cs
  | [] => Nat.le_refl 0
  | c :: cs => by
    rw [width_cons, List.length_cons, Nat.add_comm]
    exact Nat.add_le_add c.utf8Size_pos (length_le_width cs)

theorem utf8Size_of_lt {c : Char} (h : c.toNat < 128) : c.utf8Size = 1 := by
  rw [Char.utf8Size_eq_one_iff, UInt32.le_iff_toNat_le]
  exact Nat.le_of_lt_succ h

theorem width_of_lt {cs : List Char} (h : ∀ c ∈ cs, c.toNat < 128) : width cs = cs.length := by
  induction cs with
  | nil => rfl
  | cons c cs ih =>
    rw [width_cons, utf8Size_of_lt (h c List.mem_cons_self),
      ih fun d hd => h d (List.mem_cons_of_mem c hd), List.length_cons, Nat.add_comm]

/-- A run of a class within ASCII takes a byte for each character. -/
theorem width_takeWhile {accept : Char → Bool} (h : ∀ c, accept c = true → c.toNat < 128)
    (cs : List Char) : width (cs.takeWhile accept) = (cs.takeWhile accept).length :=
  width_of_lt fun c hc => h c (List.all_eq_true.mp List.all_takeWhile c hc)

/-- The bytes of a text, in order. -/
def encode (cs : List Char) : List UInt8 :=
  cs.flatMap String.utf8EncodeChar

/-! ## 2. The rest of a text from an offset on -/

/-- The rest of a text from an offset on: `torn` bytes of a character that the offset cuts in two,
    then the whole characters that follow. -/
structure Tail where
  torn : Nat
  rest : List Char
deriving DecidableEq, Repr

/-- The rest of a text from byte `offset` on; nothing at or past the end. -/
def tailAt : List Char → Nat → Tail
  | [], _ => ⟨0, []⟩
  | c :: cs, offset =>
    if offset = 0 then ⟨0, c :: cs⟩
    else if offset < c.utf8Size then ⟨c.utf8Size - offset, cs⟩
    else tailAt cs (offset - c.utf8Size)

@[simp] theorem tailAt_zero (cs : List Char) : tailAt cs 0 = ⟨0, cs⟩ := by
  cases cs <;> simp [tailAt]

theorem tailAt_append (as bs : List Char) (n : Nat) :
    tailAt (as ++ bs) (width as + n) = tailAt bs n := by
  induction as with
  | nil => simp
  | cons c as ih =>
    have := c.utf8Size_pos
    rw [List.cons_append, width_cons, tailAt, if_neg (by omega), if_neg (by omega),
      Nat.add_assoc, Nat.add_sub_cancel_left, ih]

/-- **What follows a text is found at the offset of its width.** -/
@[simp] theorem tailAt_width_append (as bs : List Char) :
    tailAt (as ++ bs) (width as) = ⟨0, bs⟩ := by
  rw [← Nat.add_zero (width as), tailAt_append, tailAt_zero]

theorem tailAt_of_width_le {cs : List Char} {offset : Nat} (h : width cs ≤ offset) :
    tailAt cs offset = ⟨0, []⟩ := by
  induction cs generalizing offset with
  | nil => rfl
  | cons c cs ih =>
    have := c.utf8Size_pos
    rw [width_cons] at h
    rw [tailAt, if_neg (by omega), if_neg (by omega)]
    exact ih (by omega)

/-- A rest of whole characters stands behind a part of the text, unless nothing is left. -/
theorem exists_append_of_tailAt {cs rest : List Char} {offset : Nat}
    (h : tailAt cs offset = ⟨0, rest⟩) (hne : rest ≠ []) :
    ∃ front, cs = front ++ rest ∧ offset = width front := by
  induction cs generalizing offset with
  | nil =>
    cases h
    exact absurd rfl hne
  | cons c cs ih =>
    by_cases h0 : offset = 0
    · subst h0
      rw [tailAt_zero] at h
      cases h
      exact ⟨[], rfl, rfl⟩
    · rw [tailAt, if_neg h0] at h
      by_cases hlt : offset < c.utf8Size
      · rw [if_pos hlt] at h
        have : c.utf8Size - offset = 0 := congrArg Tail.torn h
        omega
      · rw [if_neg hlt] at h
        obtain ⟨front, rfl, hfront⟩ := ih h
        refine ⟨c :: front, rfl, ?_⟩
        rw [width_cons]
        omega

/-- **Behind a part of the rest stands what is left of it.** -/
theorem tailAt_add {cs as bs : List Char} {offset : Nat} (h : tailAt cs offset = ⟨0, as ++ bs⟩) :
    tailAt cs (offset + width as) = ⟨0, bs⟩ := by
  by_cases hne : as ++ bs = []
  · obtain ⟨rfl, rfl⟩ := List.append_eq_nil_iff.mp hne
    exact h
  · obtain ⟨front, rfl, rfl⟩ := exists_append_of_tailAt h hne
    rw [← width_append, ← List.append_assoc, tailAt_width_append]

theorem tailAt_add_utf8Size {cs rest : List Char} {offset : Nat} {c : Char}
    (h : tailAt cs offset = ⟨0, c :: rest⟩) : tailAt cs (offset + c.utf8Size) = ⟨0, rest⟩ := by
  have hsize : width [c] = c.utf8Size := by rw [width_cons, width_nil, Nat.add_zero]
  rw [← hsize]
  exact tailAt_add h

/-- Inside a character one byte further on, one byte less of it is left. -/
theorem tailAt_add_one {cs rest : List Char} {offset torn : Nat}
    (h : tailAt cs offset = ⟨torn + 1, rest⟩) : tailAt cs (offset + 1) = ⟨torn, rest⟩ := by
  induction cs generalizing offset with
  | nil => cases h
  | cons c cs ih =>
    by_cases h0 : offset = 0
    · subst h0
      rw [tailAt_zero] at h
      cases h
    · rw [tailAt, if_neg h0] at h
      by_cases hlt : offset < c.utf8Size
      · rw [if_pos hlt] at h
        obtain ⟨htorn, rfl⟩ := Tail.mk.inj h
        by_cases hend : offset + 1 < c.utf8Size
        · rw [tailAt, if_neg (by omega), if_pos hend]
          congr 1
          omega
        · rw [tailAt, if_neg (by omega), if_neg hend, show offset + 1 - c.utf8Size = 0 by omega,
            tailAt_zero]
          congr 1
          omega
      · rw [if_neg hlt] at h
        rw [tailAt, if_neg (by omega), if_neg (by omega),
          show offset + 1 - c.utf8Size = offset - c.utf8Size + 1 by omega]
        exact ih h

/-- An offset of a text that cuts no character in two: its front, its end, or between characters. -/
def IsBoundary (cs : List Char) (offset : Nat) : Prop :=
  offset ≤ width cs ∧ (tailAt cs offset).torn = 0

instance (cs : List Char) (offset : Nat) : Decidable (IsBoundary cs offset) :=
  inferInstanceAs (Decidable (_ ∧ _))

/-- A text may be cut behind a part of it. -/
theorem isBoundary_width (front rest : List Char) : IsBoundary (front ++ rest) (width front) := by
  refine ⟨?_, ?_⟩
  · rw [width_append]
    exact Nat.le_add_right ..
  · rw [tailAt_width_append]

/-- Up to the end of a part of a text, what follows the part does not tell where it may be cut. -/
theorem isBoundary_of_append {as bs : List Char} {offset : Nat} (hle : offset ≤ width as)
    (h : IsBoundary (as ++ bs) offset) : IsBoundary as offset := by
  refine ⟨hle, ?_⟩
  obtain ⟨-, htorn⟩ := h
  induction as generalizing offset with
  | nil => rfl
  | cons a as ih =>
    rw [List.cons_append, tailAt] at htorn
    rw [width_cons] at hle
    rw [tailAt]
    split at htorn
    case isTrue hzero => rw [if_pos hzero]
    case isFalse hpos =>
      rw [if_neg hpos]
      split at htorn
      case isTrue hinside => rwa [if_pos hinside]
      case isFalse hbehind =>
        rw [if_neg hbehind]
        exact ih (by omega) htorn

/-- One byte behind a part of a text, a cut hits what follows unless that takes one byte. -/
theorem isBoundary_width_add_one_iff (front rest : List Char) (c : Char) :
    IsBoundary (front ++ c :: rest) (width front + 1) ↔ c.utf8Size = 1 := by
  have hpos := c.utf8Size_pos
  constructor
  · rintro ⟨-, htorn⟩
    rw [tailAt_append, tailAt, if_neg (Nat.succ_ne_zero 0)] at htorn
    split at htorn
    · have hzero : c.utf8Size - 1 = 0 := htorn
      omega
    · omega
  · intro hsize
    have hwidth : width (front ++ [c]) = width front + 1 := by
      rw [width_append, width_cons, hsize, width_nil]
    have hboundary := isBoundary_width (front ++ [c]) rest
    rwa [hwidth, List.append_assoc, List.singleton_append] at hboundary

/-- The characters of a tail, a torn byte standing for the character U+0000. -/
def Tail.chars (t : Tail) : List Char :=
  List.replicate t.torn '\x00' ++ t.rest

/-- The whole character that begins a tail, if it begins with one. -/
def Tail.head? (t : Tail) : Option Char :=
  if t.torn = 0 then t.rest.head? else none

/-! ## 3. Reading at an offset -/

/-- The character that begins at byte `offset`: none past the end or inside a character. -/
def charAt? (cs : List Char) (offset : Nat) : Option Char :=
  (tailAt cs offset).head?

/-- The code of the byte at `offset`, 0 past the end. -/
def byteAt (cs : List Char) (offset : Nat) : Nat :=
  match (encode cs)[offset]? with
  | some b => b.toNat
  | none => 0

/-- The characters that take exactly the first `n` bytes, if some do. -/
def takeBytes? : List Char → Nat → Option (List Char)
  | _, 0 => some []
  | [], _ + 1 => none
  | c :: cs, n + 1 =>
    if n + 1 < c.utf8Size then none else (takeBytes? cs (n + 1 - c.utf8Size)).map (c :: ·)

/-- The text between two offsets, each brought down to the end of the text and the first to the
    second; empty if one of them lies inside a character. -/
def slice (cs : List Char) (start stop : Nat) : List Char :=
  let stop := min stop (width cs)
  let start := min start stop
  let tail := tailAt cs start
  if tail.torn = 0 then (takeBytes? tail.rest (stop - start)).getD [] else []

theorem charAt?_of_tailAt {cs rest : List Char} {offset : Nat}
    (h : tailAt cs offset = ⟨0, rest⟩) : charAt? cs offset = rest.head? := by
  rw [charAt?, h]
  rfl

/-- Where a character begins, the whole characters of the rest begin with it. -/
theorem exists_tailAt_of_charAt? {cs : List Char} {offset : Nat} {c : Char}
    (h : charAt? cs offset = some c) : ∃ rest, tailAt cs offset = ⟨0, c :: rest⟩ := by
  obtain ⟨torn, following, htail⟩ : ∃ torn following, tailAt cs offset = ⟨torn, following⟩ :=
    ⟨_, _, rfl⟩
  rw [charAt?, htail] at h
  cases torn with
  | succ torn => cases h
  | zero =>
    obtain ⟨rest, rfl⟩ : ∃ rest, following = c :: rest := List.head?_eq_some_iff.mp h
    exact ⟨rest, htail⟩

/-- Where a character begins, the text may be cut, and behind it too. -/
theorem isBoundary_of_charAt? {cs : List Char} {offset : Nat} {c : Char}
    (h : charAt? cs offset = some c) :
    IsBoundary cs offset ∧ IsBoundary cs (offset + c.utf8Size) := by
  obtain ⟨rest, htail⟩ := exists_tailAt_of_charAt? h
  obtain ⟨front, rfl, rfl⟩ := exists_append_of_tailAt htail (List.cons_ne_nil c rest)
  refine ⟨isBoundary_width front (c :: rest), ?_⟩
  have hbehind := isBoundary_width (front ++ [c]) rest
  rwa [List.append_assoc, List.singleton_append, width_append, width_cons, width_nil] at hbehind

/-- No character begins inside another. -/
theorem charAt?_inside {front rest : List Char} {c : Char} {n : Nat} (hpos : 0 < n)
    (hlt : n < c.utf8Size) : charAt? (front ++ c :: rest) (width front + n) = none := by
  rw [charAt?, tailAt_append, tailAt, if_neg (Nat.ne_of_gt hpos), if_pos hlt]
  exact if_neg (Nat.sub_ne_zero_of_lt hlt)

theorem lt_width_of_charAt? {cs : List Char} {offset : Nat} {c : Char}
    (h : charAt? cs offset = some c) : offset < width cs := by
  refine Nat.lt_of_not_le fun hle => ?_
  rw [charAt?, tailAt_of_width_le hle] at h
  cases h

theorem mem_of_charAt? {as bs : List Char} {offset : Nat} {c : Char}
    (h : charAt? (as ++ bs) offset = some c) (hlt : offset < width as) : c ∈ as := by
  induction as generalizing offset with
  | nil => exact absurd hlt (Nat.not_lt_zero offset)
  | cons a as ih =>
    unfold charAt? at h
    rw [List.cons_append, tailAt] at h
    by_cases h0 : offset = 0
    · rw [if_pos h0] at h
      cases h
      exact List.mem_cons_self
    · rw [if_neg h0] at h
      by_cases hsize : offset < a.utf8Size
      · rw [if_pos hsize] at h
        have hne : a.utf8Size - offset ≠ 0 := by omega
        unfold Tail.head? at h
        rw [if_neg hne] at h
        cases h
      · rw [if_neg hsize] at h
        rw [width_cons] at hlt
        exact List.mem_cons_of_mem a (ih h (by omega))

/-- A character that ends one byte further on takes that byte alone. -/
theorem tailAt_of_charAt? {cs rest : List Char} {offset : Nat} {c : Char}
    (h : charAt? cs offset = some c) (hnext : tailAt cs (offset + 1) = ⟨0, rest⟩) :
    tailAt cs offset = ⟨0, c :: rest⟩ ∧ c.utf8Size = 1 := by
  obtain ⟨tail, htail⟩ := exists_tailAt_of_charAt? h
  obtain ⟨front, rfl, rfl⟩ := exists_append_of_tailAt htail (List.cons_ne_nil c tail)
  have := c.utf8Size_pos
  rw [tailAt_append, tailAt, if_neg (Nat.succ_ne_zero 0)] at hnext
  split at hnext
  · have htorn : c.utf8Size - 1 = 0 := congrArg Tail.torn hnext
    omega
  · have hsize : c.utf8Size = 1 := by omega
    rw [hsize, Nat.sub_self, tailAt_zero] at hnext
    cases hnext
    exact ⟨htail, hsize⟩

/-- The characters that take the bytes of a text are the text. -/
theorem takeBytes?_width (as bs : List Char) : takeBytes? (as ++ bs) (width as) = some as := by
  induction as with
  | nil => cases bs <;> rfl
  | cons c as ih =>
    have := c.utf8Size_pos
    obtain ⟨n, hn⟩ : ∃ n, width (c :: as) = n + 1 := ⟨width (c :: as) - 1, by rw [width_cons]; omega⟩
    rw [hn, List.cons_append, takeBytes?, ← hn, width_cons, if_neg (by omega),
      Nat.add_sub_cancel_left, ih]
    rfl

/-- **A part of the rest is the text between its two ends.** -/
theorem slice_of_tailAt {cs as bs : List Char} {offset : Nat}
    (h : tailAt cs offset = ⟨0, as ++ bs⟩) (hne : as ≠ []) :
    slice cs offset (offset + width as) = as := by
  obtain ⟨front, rfl, rfl⟩ := exists_append_of_tailAt h (List.append_ne_nil_of_left_ne_nil hne bs)
  have hstop : min (width front + width as) (width (front ++ (as ++ bs))) =
      width front + width as := by
    rw [width_append, width_append]
    omega
  unfold slice
  dsimp only
  rw [hstop, Nat.min_eq_left (Nat.le_add_right ..), tailAt_width_append, if_pos rfl,
    Nat.add_sub_cancel_left, takeBytes?_width]
  rfl

/-- No text is cut out from inside a character. -/
theorem slice_of_torn {cs rest : List Char} {offset torn stop : Nat}
    (h : tailAt cs offset = ⟨torn + 1, rest⟩) (hle : offset ≤ stop) : slice cs offset stop = [] := by
  have hlt : offset < width cs := by
    refine Nat.lt_of_not_le fun hge => ?_
    rw [tailAt_of_width_le hge] at h
    cases h
  unfold slice
  dsimp only
  rw [show min offset (min stop (width cs)) = offset by omega, h]
  rfl

/-- The end of the longest run of bytes from `offset` on whose codes satisfy `accept`. -/
def runEnd (accept : Nat → Bool) (cs : List Char) (offset : Nat) : Nat :=
  offset + (((encode cs).drop offset).takeWhile fun b => accept b.toNat).length

/-! ## 4. Columns of a line -/

/-- How many characters of a line end at or before byte `column`. -/
def charsBefore : List Char → Nat → Nat
  | [], _ => 0
  | c :: cs, column =>
    if column < c.utf8Size then 0 else charsBefore cs (column - c.utf8Size) + 1

/-- **As many characters end at or before a column as fit into it from the front.** -/
theorem le_charsBefore_iff {cs : List Char} {column k : Nat} :
    k ≤ charsBefore cs column ↔ k ≤ cs.length ∧ width (cs.take k) ≤ column := by
  induction cs generalizing column k with
  | nil =>
    rw [charsBefore, List.take_nil, width_nil, List.length_nil]
    exact (and_iff_left (Nat.zero_le column)).symm
  | cons c cs ih =>
    cases k with
    | zero => simp
    | succ k =>
      rw [charsBefore, List.take_succ_cons, width_cons, List.length_cons, Nat.succ_le_succ_iff]
      by_cases hlt : column < c.utf8Size
      · rw [if_pos hlt]
        omega
      · rw [if_neg hlt, Nat.succ_le_succ_iff, ih]
        omega

theorem charsBefore_le_length (cs : List Char) (column : Nat) :
    charsBefore cs column ≤ cs.length :=
  (le_charsBefore_iff.mp (Nat.le_refl _)).1

theorem charsBefore_mono (cs : List Char) {column column' : Nat} (h : column ≤ column') :
    charsBefore cs column ≤ charsBefore cs column' := by
  obtain ⟨hlength, hwidth⟩ := le_charsBefore_iff.mp (Nat.le_refl (charsBefore cs column))
  exact le_charsBefore_iff.mpr ⟨hlength, Nat.le_trans hwidth h⟩

/-- At the end of a line all its characters have ended. -/
theorem charsBefore_width (cs : List Char) : charsBefore cs (width cs) = cs.length := by
  refine Nat.le_antisymm (charsBefore_le_length cs _) ?_
  exact le_charsBefore_iff.mpr ⟨Nat.le_refl _, Nat.le_of_eq (congrArg width List.take_length)⟩

theorem charsBefore_of_width_le {line : List Char} {column : Nat} (h : width line ≤ column) :
    charsBefore line column = line.length := by
  refine Nat.le_antisymm (charsBefore_le_length line column) (le_charsBefore_iff.mpr ?_)
  refine ⟨Nat.le_refl _, ?_⟩
  rwa [List.take_length]

/-- Past the end of a line all columns are alike. -/
theorem charsBefore_min {line : List Char} {bound : Nat} (h : width line ≤ bound) (column : Nat) :
    charsBefore line (min column bound) = charsBefore line column := by
  rcases Nat.le_total column bound with hle | hle
  · rw [Nat.min_eq_left hle]
  · rw [Nat.min_eq_right hle, charsBefore_of_width_le h, charsBefore_of_width_le (Nat.le_trans h hle)]

end SourceScan.Text
