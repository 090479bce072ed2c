import SourceScan.Text.Bytes
import SourceScan.Text.Line

/-!
# Text/Checked.lean -- reading a text by steps that can fail

On a machine a sum has a greatest value and a difference is not below zero, and a text is cut within
its ends and between two characters only. Whoever breaks such a rule is stopped. Here a step gives
nothing where the machine would stop, so that a reading made of such steps tells whether it gets
through.

* `sum?`, `difference?`: sums up to a limit, and differences from zero on.
* `bytesBefore?`, `between?`: the first bytes of a text, and the text between two offsets.
* `floorBoundary?`: the last boundary at or ahead of an offset, searched byte by byte;
  `floorBoundary?_eq`: the search ends behind the characters that end there.
* `between?_take`: between two boundaries of a line a cut gives its characters;
  `encode_slice`: between two of a text, all the bytes.
* `placeAt?`: the place of an offset by two searches among the bytes ahead of it. **It is there, and
  it is that of the walk** (`placeAt?_eq`).
-/

namespace SourceScan.Text

/-! ## 1. Steps -/

/-- The sum of two numbers, up to a limit. -/
def sum? (limit a b : Nat) : Option Nat :=
  if a + b ≤ limit then some (a + b) else none

/-- The difference of two numbers, if the first is not the lesser. -/
def difference? (a b : Nat) : Option Nat :=
  if b ≤ a then some (a - b) else none

/-- The first `n` bytes of a text, if it has so many. -/
def bytesBefore? (cs : List Char) (n : Nat) : Option (List UInt8) :=
  if n ≤ (encode cs).length then some ((encode cs).take n) else none

/-- The text between two offsets, if they are in order and the text may be cut at both. -/
def between? (cs : List Char) (start stop : Nat) : Option (List Char) :=
  if start ≤ stop ∧ IsBoundary cs start ∧ IsBoundary cs stop then some (slice cs start stop) else none

/-- The last boundary of a text at or ahead of an offset, if there is one. -/
def boundaryFrom? (cs : List Char) : Nat → Option Nat
  | 0 => if IsBoundary cs 0 then some 0 else none
  | n + 1 => if IsBoundary cs (n + 1) then some (n + 1) else boundaryFrom? cs n

/-- The last boundary at or ahead of an offset, which counts as the end if it is past it. -/
def floorBoundary? (cs : List Char) (offset : Nat) : Option Nat :=
  boundaryFrom? cs (min offset (width cs))

/-- The index of the last element that is accepted. -/
def lastIndex? {α : Type} (accept : α → Bool) : List α → Option Nat
  | [] => none
  | a :: as =>
    match lastIndex? accept as with
    | some i => some (i + 1)
    | none => if accept a then some 0 else none

theorem sum?_eq {limit a b : Nat} (h : a + b ≤ limit) : sum? limit a b = some (a + b) :=
  if_pos h

theorem sum?_eq_none {limit a b : Nat} (h : limit < a + b) : sum? limit a b = none :=
  if_neg (Nat.not_le.mpr h)

theorem difference?_eq {a b : Nat} (h : b ≤ a) : difference? a b = some (a - b) :=
  if_pos h

section LastIndex

variable {α : Type} {accept : α → Bool}

theorem lastIndex?_eq_none_iff {as : List α} :
    lastIndex? accept as = none ↔ ∀ a ∈ as, accept a = false := by
  induction as with
  | nil => exact iff_of_true rfl fun a h => nomatch h
  | cons a as ih =>
    rw [List.forall_mem_cons, ← ih, lastIndex?]
    cases lastIndex? accept as <;> cases accept a <;> simp

/-- Where there is a first, there is a last. -/
theorem exists_lastIndex? {as : List α} {i : Nat} (h : as.findIdx? accept = some i) :
    ∃ j, lastIndex? accept as = some j := by
  refine Option.ne_none_iff_exists'.mp fun hnone => ?_
  rw [List.findIdx?_eq_none_iff.mpr (lastIndex?_eq_none_iff.mp hnone)] at h
  cases h

theorem lastIndex?_map {β : Type} (f : β → α) (bs : List β) :
    lastIndex? accept (bs.map f) = lastIndex? (accept ∘ f) bs := by
  induction bs with
  | nil => rfl
  | cons b bs ih =>
    rw [List.map_cons, lastIndex?, ih]
    rfl

/-- The last element accepted is in the back part, or in the front part if none is there. -/
theorem lastIndex?_append (as bs : List α) : lastIndex? accept (as ++ bs) =
    match lastIndex? accept bs with
    | some i => some (as.length + i)
    | none => lastIndex? accept as := by
  induction as with
  | nil => cases h : lastIndex? accept bs <;> simp [lastIndex?, h]
  | cons a as ih =>
    rw [List.cons_append, lastIndex?, ih]
    cases lastIndex? accept bs with
    | none => rfl
    | some i => exact congrArg some (Nat.add_right_comm as.length i 1)

theorem lastIndex?_lt {as : List α} {i : Nat} (h : lastIndex? accept as = some i) :
    i < as.length := by
  induction as generalizing i with
  | nil => cases h
  | cons a as ih =>
    rw [lastIndex?] at h
    split at h
    case h_1 j hj =>
      cases h
      exact Nat.succ_lt_succ (ih hj)
    case h_2 =>
      split at h <;> cases h
      exact Nat.succ_pos _

/-- What is at the last index is the last of what is accepted. -/
theorem getLast?_filter_eq {as : List α} {i : Nat} (h : lastIndex? accept as = some i) :
    (as.filter accept).getLast? = as[i]? := by
  induction as generalizing i with
  | nil => cases h
  | cons a as ih =>
    rw [lastIndex?] at h
    split at h
    case h_1 j hj =>
      cases h
      have hlast := ih hj
      rw [List.getElem?_eq_getElem (lastIndex?_lt hj)] at hlast
      rw [List.getElem?_cons_succ, List.getElem?_eq_getElem (lastIndex?_lt hj), List.filter_cons]
      split
      · rw [List.getLast?_cons, hlast]
        rfl
      · exact hlast
    case h_2 hnone =>
      split at h
      case isTrue ha =>
        cases h
        have hrest : as.filter accept = [] := List.filter_eq_nil_iff.mpr fun b hb =>
          Bool.eq_false_iff.mp (lastIndex?_eq_none_iff.mp hnone b hb)
        rw [List.filter_cons_of_pos ha, hrest]
        rfl
      case isFalse => cases h

end LastIndex

/-! ## 2. Cutting a line -/

/-- A text may be cut behind each part of it that it begins with. -/
theorem isBoundary_iff {cs : List Char} {offset : Nat} :
    IsBoundary cs offset ↔ ∃ front rest, cs = front ++ rest ∧ offset = width front := by
  constructor
  · rintro ⟨hle, htorn⟩
    by_cases hend : offset = width cs
    · exact ⟨cs, [], (List.append_nil cs).symm, hend⟩
    · -- the bytes of the rest are those that the offset leaves
      have hne : (tailAt cs offset).rest ≠ [] := fun hnil => by
        obtain ⟨torn, hdrop, hlength, -⟩ := drop_encode cs offset
        have hleft := congrArg List.length hdrop
        rw [List.length_drop, length_encode, List.length_append, length_encode, hnil, hlength, htorn,
          width_nil] at hleft
        omega
      have htail : tailAt cs offset = ⟨0, (tailAt cs offset).rest⟩ := by rw [← htorn]
      obtain ⟨front, hcs, hfront⟩ := exists_append_of_tailAt htail hne
      exact ⟨front, _, hcs, hfront⟩
  · rintro ⟨front, rest, rfl, rfl⟩
    exact isBoundary_width front rest

/-- At a boundary ahead of the end a character begins. -/
theorem exists_charAt?_of_isBoundary {cs : List Char} {offset : Nat} (h : IsBoundary cs offset)
    (hlt : offset < width cs) : ∃ c, charAt? cs offset = some c := by
  obtain ⟨front, rest, rfl, rfl⟩ := isBoundary_iff.mp h
  cases rest with
  | nil =>
    rw [List.append_nil] at hlt
    exact absurd hlt (Nat.lt_irrefl _)
  | cons c rest => exact ⟨c, charAt?_of_tailAt (tailAt_width_append front (c :: rest))⟩

namespace Bytes

variable {b : Bytes} {offset : Nat}

/-- A run of a class that has all characters beyond ASCII or none of them ends at a boundary. -/
theorem isBoundary_runEnd {accept : Char → Bool} (hf : ReadsAscii accept)
    (h : IsBoundary b.text offset) : IsBoundary b.text (b.runEnd accept offset) := by
  obtain ⟨front, rest, htext, hoffset⟩ := isBoundary_iff.mp h
  have htail : tailAt b.text offset = ⟨0, rest⟩ := by rw [htext, hoffset, tailAt_width_append]
  refine isBoundary_iff.mpr ⟨front ++ rest.takeWhile accept, rest.dropWhile accept, ?_, ?_⟩
  · rw [List.append_assoc, List.takeWhile_append_dropWhile, htext]
  · rw [runEnd_eq hf htail, hoffset, width_append]

/-- An ASCII byte at a boundary is the character there. -/
theorem charAt?_of_peek (h : IsBoundary b.text offset) (hlt : offset < b.size)
    (hascii : (b.peek offset).toNat < 128) : charAt? b.text offset = some (b.peek offset) := by
  obtain ⟨c, hc⟩ := exists_charAt?_of_isBoundary h (size_eq b ▸ hlt)
  obtain ⟨rest, htail⟩ := exists_tailAt_of_charAt? hc
  have hsame : ReadsAscii fun d => d == b.peek offset :=
    .of_lt fun d hd => eq_of_beq hd ▸ hascii
  have hpeek : (c == b.peek offset) = true := (of_peek hsame htail).symm.trans (beq_self_eq_true _)
  rw [hc, eq_of_beq hpeek]

end Bytes

section Line

variable (line : List Char)

theorem isBoundary_width_take (k : Nat) : IsBoundary line (width (line.take k)) :=
  isBoundary_iff.mpr ⟨line.take k, line.drop k, (List.take_append_drop k line).symm, rfl⟩

theorem width_take_mono {j k : Nat} (h : j ≤ k) : width (line.take j) ≤ width (line.take k) := by
  rw [← Nat.add_sub_cancel' h, List.take_add, width_append]
  exact Nat.le_add_right ..

/-- A character more takes a byte at least. -/
theorem width_take_lt {j k : Nat} (h : j < k) (hk : k ≤ line.length) :
    width (line.take j) < width (line.take k) := by
  have hmore := length_le_width ((line.drop j).take (k - j))
  rw [List.length_take, List.length_drop] at hmore
  rw [← Nat.add_sub_cancel' (Nat.le_of_lt h), List.take_add, width_append]
  omega

theorem width_take_max (j k : Nat) :
    max (width (line.take j)) (width (line.take k)) = width (line.take (max j k)) := by
  rcases Nat.le_total j k with h | h
  · rw [Nat.max_eq_right h, Nat.max_eq_right (width_take_mono line h)]
  · rw [Nat.max_eq_left h, Nat.max_eq_left (width_take_mono line h)]

/-- The characters that have ended at a boundary take all the bytes ahead of it. -/
theorem width_take_charsBefore {offset : Nat} (h : IsBoundary line offset) :
    width (line.take (charsBefore line offset)) = offset := by
  obtain ⟨front, rest, rfl, rfl⟩ := isBoundary_iff.mp h
  obtain ⟨-, hle⟩ :=
    le_charsBefore_iff.mp (Nat.le_refl (charsBefore (front ++ rest) (width front)))
  have hfit : front.length ≤ charsBefore (front ++ rest) (width front) := by
    rw [le_charsBefore_iff, List.length_append, List.take_left]
    exact ⟨Nat.le_add_right .., Nat.le_refl _⟩
  have hmono := width_take_mono (front ++ rest) hfit
  rw [List.take_left] at hmono
  exact Nat.le_antisymm hle hmono

theorem boundaryFrom?_eq {n : Nat} (h : n ≤ width line) :
    boundaryFrom? line n = some (width (line.take (charsBefore line n))) := by
  induction n with
  | zero =>
    have hfront : IsBoundary line 0 := isBoundary_width [] line
    rw [boundaryFrom?, if_pos hfront, width_take_charsBefore line hfront]
  | succ n ih =>
    rw [boundaryFrom?]
    obtain ⟨hlength, hwidth⟩ := le_charsBefore_iff.mp (Nat.le_refl (charsBefore line (n + 1)))
    split
    case isTrue hboundary => rw [width_take_charsBefore line hboundary]
    case isFalse hinside =>
      -- no character ends here, so that one byte ahead as many have ended
      have hne : width (line.take (charsBefore line (n + 1))) ≠ n + 1 := fun hends =>
        hinside (hends ▸ isBoundary_width_take line _)
      have hsame : charsBefore line (n + 1) = charsBefore line n := by
        refine Nat.le_antisymm (le_charsBefore_iff.mpr ⟨hlength, ?_⟩)
          (charsBefore_mono line (Nat.le_succ n))
        omega
      rw [ih (Nat.le_of_succ_le h), hsame]

/-- **The search for a boundary ends**, behind the characters that end at or before the column. -/
theorem floorBoundary?_eq (column : Nat) :
    floorBoundary? line column = some (width (line.take (charsBefore line column))) := by
  rw [floorBoundary?, boundaryFrom?_eq line (Nat.min_le_right ..),
    charsBefore_min (Nat.le_refl _)]

theorem slice_width (front middle behind : List Char) :
    slice (front ++ (middle ++ behind)) (width front) (width front + width middle) = middle := by
  have hstop : min (width front + width middle) (width (front ++ (middle ++ behind))) =
      width front + width middle := by
    rw [width_append, width_append]
    omega
  unfold slice
  dsimp only
  rw [hstop, Nat.min_eq_left (Nat.le_add_right ..), tailAt_width_append, if_pos rfl,
    Nat.add_sub_cancel_left, takeBytes?_width]
  rfl

/-- **Between two boundaries in order a cut gives the characters between them.** -/
theorem between?_take {j k : Nat} (h : j ≤ k) :
    between? line (width (line.take j)) (width (line.take k)) = some ((line.take k).drop j) := by
  have hboundaries := And.intro (width_take_mono line h)
    (And.intro (isBoundary_width_take line j) (isBoundary_width_take line k))
  have hslice := slice_width (line.take j) ((line.take k).drop j) (line.drop k)
  rw [← List.append_assoc, ← width_append, take_append_drop_take h, List.take_append_drop] at hslice
  rw [between?, if_pos hboundaries, hslice]

/-- Between two boundaries that are not in order a cut gives nothing, and there is nothing. -/
theorem getD_between?_take {j : Nat} (h : j ≤ line.length) (k : Nat) :
    (between? line (width (line.take j)) (width (line.take k))).getD [] = (line.take k).drop j := by
  rcases Nat.lt_or_ge k j with hlt | hle
  · have hnot := Nat.not_le.mpr (width_take_lt line hlt h)
    rw [between?, if_neg fun hcut => hnot hcut.1, List.drop_eq_nil_of_le]
    · rfl
    · exact Nat.le_trans (List.length_take_le k line) (Nat.le_of_lt hlt)
  · rw [between?_take line hle]
    rfl

end Line

/-- Two boundaries in order divide a text in three. -/
theorem exists_append_of_isBoundary {cs : List Char} {start stop : Nat} (hle : start ≤ stop)
    (hstart : IsBoundary cs start) (hstop : IsBoundary cs stop) :
    ∃ front middle behind, cs = front ++ (middle ++ behind) ∧ start = width front ∧
      stop = width front + width middle := by
  have htake := take_append_drop_take (charsBefore_mono cs hle) cs
  refine ⟨cs.take (charsBefore cs start),
    (cs.take (charsBefore cs stop)).drop (charsBefore cs start), cs.drop (charsBefore cs stop),
    ?_, (width_take_charsBefore cs hstart).symm, ?_⟩
  · rw [← List.append_assoc, htake, List.take_append_drop]
  · rw [← width_append, htake, width_take_charsBefore cs hstop]

/-- **Between two boundaries in order a cut takes all the bytes.** -/
theorem encode_slice {cs : List Char} {start stop : Nat} (hle : start ≤ stop)
    (hstart : IsBoundary cs start) (hstop : IsBoundary cs stop) :
    encode (slice cs start stop) = ((encode cs).drop start).take (stop - start) := by
  obtain ⟨front, middle, behind, rfl, rfl, rfl⟩ := exists_append_of_isBoundary hle hstart hstop
  have hbytes : encode (front ++ (middle ++ behind)) =
      encode front ++ (encode middle ++ encode behind) := by
    simp only [encode, List.flatMap_append]
  rw [slice_width, hbytes, List.drop_left' (length_encode front), Nat.add_sub_cancel_left,
    List.take_left' (length_encode middle)]

/-! ## 3. The place of an offset -/

/-- Whether a byte is a newline. -/
def isNewline (code : UInt8) : Bool :=
  code == 10

/-- The line and column of a byte offset: the newlines among the bytes ahead of it are counted, and the
    last of them is what the line begins behind. -/
def placeAt? (limit : Nat) (cs : List Char) (offset : Nat) : Option Place := do
  let before ← bytesBefore? cs (min offset (width cs))
  let line ← sum? limit (before.countP isNewline) 1
  let start ← match lastIndex? isNewline before with
    | some i => sum? limit i 1
    | none => some 0
  let back ← difference? before.length start
  let column ← sum? limit back 1
  return ⟨line, column⟩

/-- No byte of a line is a newline. -/
theorem isNewline_of_mem_encode {line : List Char} (h : '\n' ∉ line) {code : UInt8}
    (hcode : code ∈ encode line) : isNewline code = false := by
  obtain ⟨c, hc, hmem⟩ := List.mem_flatMap.mp hcode
  refine Bool.eq_false_iff.mpr fun hnewline => ?_
  obtain rfl : code = 10 := eq_of_beq hnewline
  by_cases hascii : c.toNat < 128
  · rw [utf8EncodeChar_of_lt hascii, List.mem_singleton] at hmem
    have hten := congrArg UInt8.toNat hmem
    rw [UInt8.toNat_ofNat_of_lt' (Nat.lt_trans hascii (by decide))] at hten
    have hchar : c = '\n' := Char.toNat_inj.mp hten.symm
    exact h (hchar ▸ hc)
  · exact absurd (le_of_mem_utf8EncodeChar (Nat.le_of_not_lt hascii) hmem) (by decide)

/-- The place behind some bytes, as the two searches tell it. -/
def placeBehind (line : Nat) (before : List UInt8) : Place :=
  let start : Nat := match lastIndex? isNewline before with
    | some i => i + 1
    | none => 0
  ⟨line + before.countP isNewline, before.length - start + 1⟩

theorem placeBehind_of_forall {number : Nat} {before : List UInt8}
    (h : ∀ code ∈ before, isNewline code = false) :
    placeBehind number before = ⟨number, before.length + 1⟩ := by
  have hcount : before.countP isNewline = 0 :=
    List.countP_eq_zero.mpr fun code hcode => Bool.eq_false_iff.mp (h code hcode)
  unfold placeBehind
  rw [lastIndex?_eq_none_iff.mpr h, hcount]
  rfl

/-- Behind a newline the place is that of what is behind it, on the next line. -/
theorem placeBehind_newline {number : Nat} {line rest : List UInt8}
    (h : ∀ code ∈ line, isNewline code = false) :
    placeBehind number (line ++ 10 :: rest) = placeBehind (number + 1) rest := by
  have hcount : line.countP isNewline = 0 :=
    List.countP_eq_zero.mpr fun code hcode => Bool.eq_false_iff.mp (h code hcode)
  have hten : isNewline 10 = true := rfl
  unfold placeBehind
  rw [lastIndex?_append, List.countP_append, hcount, List.countP_cons_of_pos hten, List.length_append,
    List.length_cons, lastIndex?]
  cases lastIndex? isNewline rest with
  | none =>
    dsimp only
    rw [if_pos hten]
    dsimp only
    congr 1 <;> omega
  | some i =>
    dsimp only
    congr 1 <;> omega

/-- The walk to an offset ends where the searches do. -/
theorem after_eq_placeBehind (number : Nat) {cs : List Char} {offset : Nat}
    (h : offset ≤ width cs) :
    Place.after ⟨number, 1⟩ cs offset = placeBehind number ((encode cs).take offset) := by
  induction cs using line_induction generalizing number offset with
  | last line hline =>
    have hnone : ∀ code ∈ (encode line).take offset, isNewline code = false := fun code hcode =>
      isNewline_of_mem_encode hline (List.mem_of_mem_take hcode)
    have hafter := Place.after_of_le hline h ⟨number, 1⟩ []
    rw [List.append_nil] at hafter
    rw [hafter, placeBehind_of_forall hnone, List.length_take, length_encode, Nat.min_eq_left h,
      Nat.add_comm 1]
  | newline line rest hline ih =>
    have hnone : ∀ code ∈ encode line, isNewline code = false := fun code hcode =>
      isNewline_of_mem_encode hline hcode
    have hbytes : encode (line ++ '\n' :: rest) = encode line ++ 10 :: encode rest := by
      rw [encode, List.flatMap_append]
      rfl
    rw [hbytes]
    by_cases hle : offset ≤ width line
    · have hfront : (encode line ++ 10 :: encode rest).take offset = (encode line).take offset :=
        List.take_append_of_le_length (by rwa [length_encode])
      rw [Place.after_of_le hline hle, hfront,
        placeBehind_of_forall fun code hcode => hnone code (List.mem_of_mem_take hcode),
        List.length_take, length_encode, Nat.min_eq_left hle, Nat.add_comm 1]
    · obtain ⟨more, rfl⟩ := Nat.exists_eq_add_of_lt (Nat.lt_of_not_le hle)
      have hsize : '\n'.utf8Size = 1 := rfl
      rw [width_append, width_cons] at h
      have htake : (encode line ++ 10 :: encode rest).take (width line + more + 1) =
          encode line ++ 10 :: (encode rest).take more := by
        rw [Nat.add_assoc, ← length_encode, List.take_length_add_append, List.take_succ_cons]
      rw [htake, Nat.add_right_comm, Place.after_newline hline, ih (number + 1) (by omega),
        placeBehind_newline hnone]

/-- **The place of an offset is there**, if the text is shorter than the limit, and is that of the
    walk. -/
theorem placeAt?_eq {limit : Nat} {cs : List Char} (h : width cs < limit) (offset : Nat) :
    placeAt? limit cs offset = some (placeAt cs offset) := by
  have hmin : min offset (width cs) ≤ width cs := Nat.min_le_right ..
  obtain ⟨before, hbefore⟩ : ∃ before, before = (encode cs).take (min offset (width cs)) := ⟨_, rfl⟩
  have hlength : before.length < limit := by
    rw [hbefore, List.length_take, length_encode]
    omega
  have hplace : placeAt cs offset = placeBehind 1 before := by
    rw [hbefore, ← after_eq_placeBehind 1 hmin, placeAt]
    rcases Nat.le_total offset (width cs) with hle | hle
    · rw [Nat.min_eq_left hle]
    · rw [Nat.min_eq_right hle, Place.after_of_width_le hle]
  have hbytes : bytesBefore? cs (min offset (width cs)) = some before := by
    rw [hbefore]
    exact if_pos (by rwa [length_encode])
  have hcount : before.countP isNewline + 1 ≤ limit :=
    Nat.le_trans (Nat.succ_le_succ List.countP_le_length) hlength
  rw [hplace, placeAt?, hbytes, placeBehind]
  simp only [Option.bind_eq_bind, Option.bind_some, sum?_eq hcount]
  cases hlast : lastIndex? isNewline before with
  | none =>
    have hcolumn : before.length - 0 + 1 ≤ limit := hlength
    simp only [Option.bind_some, difference?_eq (Nat.zero_le _), sum?_eq hcolumn]
    rw [Nat.add_comm 1]
    rfl
  | some i =>
    have hlt := lastIndex?_lt hlast
    have hstart : i + 1 ≤ limit := by omega
    have hcolumn : before.length - (i + 1) + 1 ≤ limit := by omega
    simp only [Option.bind_some, sum?_eq hstart, difference?_eq hlt, sum?_eq hcolumn]
    rw [Nat.add_comm 1]
    rfl

end SourceScan.Text
