import SourceScan.Text.Width

/-!
# Text/Bytes.lean -- a text at hand byte by byte

A pass over a text goes from offset to offset and looks at one byte at a time. This file gives the
text that form; every way of looking is total.

* `Bytes`: a text and its bytes in an array.
* `Bytes.peek`: the byte at an offset, as the character of its code, U+0000 past the end. In front
  of an ASCII character it is that character; inside a longer one it is not ASCII.
* `Bytes.charAt`, `Bytes.slice`: the whole character at an offset, the text between two offsets.
* `Bytes.runEnd`: the end of the longest run of bytes of a class.
* `ReadsAscii f`: `f` treats all characters beyond ASCII alike, so that a byte decides as the
  character does. **Such a function of the byte in front of a rest is that of its first character**
  (`Bytes.of_peek`), and a run of bytes of such a class is a run of characters (`Bytes.runEnd_eq`).
-/

namespace SourceScan.Text

/-! ## 1. The bytes of a text -/

/-- A text and its bytes. -/
structure Bytes where
  text : List Char
  codes : Array UInt8
  codes_eq : codes = (encode text).toArray

namespace Bytes

/-- The bytes of a text. -/
def of (text : List Char) : Bytes :=
  ⟨text, (encode text).toArray, rfl⟩

/-- How many bytes there are. -/
def size (b : Bytes) : Nat :=
  b.codes.size

/-- The byte at an offset, as the character of its code; U+0000 past the end. -/
def peek (b : Bytes) (offset : Nat) : Char :=
  match b.codes[offset]? with
  | some code => Char.ofNat code.toNat
  | none => '\x00'

/-- The whole character that begins at an offset; U+0000 past the end or inside a character. -/
def charAt (b : Bytes) (offset : Nat) : Char :=
  (charAt? b.text offset).getD '\x00'

/-- The text between two offsets. -/
def slice (b : Bytes) (start stop : Nat) : List Char :=
  Text.slice b.text start stop

/-- The end of the longest run of bytes from an offset on that are in a class. -/
def runEnd (b : Bytes) (accept : Char → Bool) (offset : Nat) : Nat :=
  if offset < b.size then
    if accept (b.peek offset) then b.runEnd accept (offset + 1) else offset
  else offset
termination_by b.size - offset

@[simp] theorem text_of (text : List Char) : (of text).text = text := rfl

theorem peek_of_size_le {b : Bytes} {offset : Nat} (h : b.size ≤ offset) :
    b.peek offset = '\x00' := by
  unfold peek
  rw [Array.getElem?_eq_none h]

/-- Where a byte is not U+0000, the text has not ended. -/
theorem lt_size_of_peek_ne {b : Bytes} {offset : Nat} (h : b.peek offset ≠ '\x00') :
    offset < b.size :=
  Nat.lt_of_not_le fun hle => h (peek_of_size_le hle)

theorem le_runEnd (b : Bytes) (accept : Char → Bool) (offset : Nat) :
    offset ≤ b.runEnd accept offset := by
  fun_induction runEnd b accept offset with
  | case1 offset _ _ ih => omega
  | case2 => exact Nat.le_refl _
  | case3 => exact Nat.le_refl _

/-- A run that begins with a byte of the class is not empty. -/
theorem lt_runEnd {b : Bytes} {accept : Char → Bool} {offset : Nat} (hlt : offset < b.size)
    (hacc : accept (b.peek offset) = true) : offset < b.runEnd accept offset := by
  rw [runEnd, if_pos hlt, if_pos hacc]
  exact le_runEnd b accept (offset + 1)

end Bytes

/-! ## 2. Bytes of characters -/

/-- An ASCII character is one byte, its code. -/
theorem utf8EncodeChar_of_lt {c : Char} (h : c.toNat < 128) :
    String.utf8EncodeChar c = [UInt8.ofNat c.toNat] := by
  have hle : c.val.toNat ≤ 0x7f := Nat.le_of_lt_succ h
  unfold String.utf8EncodeChar
  rw [if_pos hle]
  rfl

/-- No byte of a character beyond ASCII is ASCII. -/
theorem le_of_mem_utf8EncodeChar {c : Char} (h : 128 ≤ c.toNat) {x : UInt8}
    (hx : x ∈ String.utf8EncodeChar c) : 128 ≤ x.toNat := by
  have hgt : ¬ c.val.toNat ≤ 0x7f := Nat.not_le.mpr h
  unfold String.utf8EncodeChar at hx
  rw [if_neg hgt] at hx
  split at hx
  · simp only [List.mem_cons, List.not_mem_nil, or_false] at hx
    rcases hx with rfl | rfl <;> simp [UInt8.toNat_ofNat'] <;> omega
  · split at hx
    · simp only [List.mem_cons, List.not_mem_nil, or_false] at hx
      rcases hx with rfl | rfl | rfl <;> simp [UInt8.toNat_ofNat'] <;> omega
    · simp only [List.mem_cons, List.not_mem_nil, or_false] at hx
      rcases hx with rfl | rfl | rfl | rfl <;> simp [UInt8.toNat_ofNat'] <;> omega

theorem encode_cons (c : Char) (cs : List Char) :
    encode (c :: cs) = String.utf8EncodeChar c ++ encode cs := by
  rw [encode, encode, List.flatMap_cons]

theorem length_encode (cs : List Char) : (encode cs).length = width cs := by
  induction cs with
  | nil => rfl
  | cons c cs ih =>
    rw [encode_cons, List.length_append, String.length_utf8EncodeChar, ih, width_cons]

/-- **The bytes from an offset on are the torn ones, none of them ASCII, and those of the rest.** -/
theorem drop_encode (cs : List Char) (offset : Nat) :
    ∃ torn, (encode cs).drop offset = torn ++ encode (tailAt cs offset).rest ∧
      torn.length = (tailAt cs offset).torn ∧ ∀ x ∈ torn, 128 ≤ x.toNat := by
  induction cs generalizing offset with
  | nil => exact ⟨[], by simp [tailAt, encode], rfl, by simp⟩
  | cons c cs ih =>
    have hlen := String.length_utf8EncodeChar c
    by_cases h0 : offset = 0
    · subst h0
      exact ⟨[], by simp, by simp, by simp⟩
    by_cases hlt : offset < c.utf8Size
    · have htail : tailAt (c :: cs) offset = ⟨c.utf8Size - offset, cs⟩ := by
        rw [tailAt, if_neg h0, if_pos hlt]
      refine ⟨(String.utf8EncodeChar c).drop offset, ?_, ?_, fun x hx => ?_⟩
      · rw [htail, encode_cons, List.drop_append_of_le_length (by omega)]
      · rw [htail, List.length_drop, hlen]
      · refine le_of_mem_utf8EncodeChar (Nat.le_of_not_lt fun hascii => ?_) (List.mem_of_mem_drop hx)
        have := utf8Size_of_lt hascii
        omega
    · have htail : tailAt (c :: cs) offset = tailAt cs (offset - c.utf8Size) := by
        rw [tailAt, if_neg h0, if_neg hlt]
      rw [htail, encode_cons, List.drop_append, hlen, List.drop_eq_nil_of_le (by omega),
        List.nil_append]
      exact ih _

/-! ## 3. What a byte decides -/

/-- A function of a character that treats all characters beyond ASCII alike. -/
def ReadsAscii {α : Type} (f : Char → α) : Prop :=
  ∀ c d : Char, 128 ≤ c.toNat → 128 ≤ d.toNat → f c = f d

/-- A class within ASCII treats all other characters alike. -/
theorem ReadsAscii.of_lt {accept : Char → Bool} (h : ∀ c, accept c = true → c.toNat < 128) :
    ReadsAscii accept := by
  have hfalse : ∀ c, 128 ≤ c.toNat → accept c = false := fun c hc =>
    Bool.eq_false_iff.mpr fun hacc => absurd (h c hacc) (Nat.not_lt.mpr hc)
  intro c d hc hd
  rw [hfalse c hc, hfalse d hd]

/-- The character of a byte's code. -/
theorem toNat_ofNat_code (x : UInt8) : (Char.ofNat x.toNat).toNat = x.toNat := by
  have := x.toNat_lt
  have hvalid : x.toNat.isValidChar := Or.inl (by omega)
  rw [Char.ofNat, dif_pos hvalid]
  rfl

/-- Every byte of a character decides as the character does. -/
theorem ReadsAscii.of_mem {α : Type} {f : Char → α} (hf : ReadsAscii f) {c : Char} {x : UInt8}
    (hx : x ∈ String.utf8EncodeChar c) : f (Char.ofNat x.toNat) = f c := by
  by_cases hc : c.toNat < 128
  · rw [utf8EncodeChar_of_lt hc, List.mem_singleton] at hx
    rw [hx, UInt8.toNat_ofNat_of_lt' (Nat.lt_trans hc (by decide)),
      Char.ofNat_toNat]
  · have hx' := le_of_mem_utf8EncodeChar (Nat.le_of_not_lt hc) hx
    exact hf _ _ (by rwa [toNat_ofNat_code]) (Nat.le_of_not_lt hc)

/-- A run of bytes of a class is the bytes of a run of characters. -/
theorem ReadsAscii.takeWhile_encode {accept : Char → Bool} (hf : ReadsAscii accept)
    (cs : List Char) : (encode cs).takeWhile (fun x => accept (Char.ofNat x.toNat)) =
      encode (cs.takeWhile accept) := by
  induction cs with
  | nil => rfl
  | cons c cs ih =>
    rw [encode_cons]
    by_cases hacc : accept c = true
    · rw [List.takeWhile_append_of_pos fun x hx => (hf.of_mem hx).trans hacc, ih,
        List.takeWhile_cons_of_pos hacc, encode_cons]
    · rw [List.takeWhile_cons_of_neg hacc]
      obtain ⟨x, xs, hx⟩ := List.exists_cons_of_ne_nil (@String.utf8EncodeChar_ne_nil c)
      have hneg : accept (Char.ofNat x.toNat) = false := by
        rw [hf.of_mem (hx ▸ List.mem_cons_self)]
        exact Bool.eq_false_iff.mpr hacc
      rw [hx, List.cons_append, List.takeWhile_cons, hneg]
      rfl

namespace Bytes

variable {b : Bytes} {offset : Nat}

theorem size_eq (b : Bytes) : b.size = width b.text := by
  rw [size, b.codes_eq, List.size_toArray, length_encode]

theorem size_of (text : List Char) : (of text).size = width text :=
  size_eq (of text)

/-- A byte in the array is that of the text. -/
theorem peek_eq (b : Bytes) (offset : Nat) : b.peek offset = Char.ofNat (byteAt b.text offset) := by
  rw [peek, byteAt, b.codes_eq, List.getElem?_toArray]
  cases (encode b.text)[offset]? <;> rfl

theorem byteAt_eq_head? (cs : List Char) (offset : Nat) :
    byteAt cs offset = (((encode cs).drop offset).head?.map UInt8.toNat).getD 0 := by
  rw [byteAt, List.head?_drop]
  split <;> rename_i h <;> rw [h] <;> rfl

/-- At the end of the text there is no byte. -/
theorem peek_of_nil (h : tailAt b.text offset = ⟨0, []⟩) : b.peek offset = '\x00' := by
  obtain ⟨torn, hdrop, hlen, _⟩ := drop_encode b.text offset
  rw [h] at hdrop hlen
  rw [peek_eq, byteAt_eq_head?, hdrop, List.eq_nil_of_length_eq_zero hlen]
  rfl

/-- **In front of a character, the byte decides as the character does.** -/
theorem of_peek {α : Type} {f : Char → α} (hf : ReadsAscii f) {c : Char} {rest : List Char}
    (h : tailAt b.text offset = ⟨0, c :: rest⟩) : f (b.peek offset) = f c := by
  obtain ⟨torn, hdrop, hlen, _⟩ := drop_encode b.text offset
  rw [h] at hdrop hlen
  obtain ⟨x, xs, hx⟩ := List.exists_cons_of_ne_nil (@String.utf8EncodeChar_ne_nil c)
  rw [peek_eq, byteAt_eq_head?, hdrop, List.eq_nil_of_length_eq_zero hlen, List.nil_append,
    encode_cons, hx]
  exact hf.of_mem (hx ▸ List.mem_cons_self)

/-- Inside a character the byte is not ASCII. -/
theorem le_peek_of_torn {torn : Nat} {rest : List Char}
    (h : tailAt b.text offset = ⟨torn + 1, rest⟩) : 128 ≤ (b.peek offset).toNat := by
  obtain ⟨bytes, hdrop, hlen, hascii⟩ := drop_encode b.text offset
  rw [h] at hdrop hlen
  obtain ⟨x, xs, rfl⟩ := List.exists_cons_of_length_eq_add_one hlen
  rw [peek_eq, byteAt_eq_head?, hdrop]
  exact (toNat_ofNat_code x).symm ▸ hascii x List.mem_cons_self

theorem size_le_iff : b.size ≤ offset ↔ tailAt b.text offset = ⟨0, []⟩ := by
  refine ⟨fun hle => tailAt_of_width_le (size_eq b ▸ hle), fun h => ?_⟩
  obtain ⟨torn, hdrop, hlen, _⟩ := drop_encode b.text offset
  rw [h] at hdrop hlen
  rw [List.eq_nil_of_length_eq_zero hlen, List.nil_append] at hdrop
  have := List.drop_eq_nil_iff.mp hdrop
  rwa [length_encode, ← size_eq] at this

theorem lt_size_of_tailAt {torn : Nat} {rest : List Char}
    (h : tailAt b.text offset = ⟨torn, rest⟩) (hne : (⟨torn, rest⟩ : Tail) ≠ ⟨0, []⟩) :
    offset < b.size :=
  Nat.lt_of_not_le fun hle => hne (h.symm.trans (size_le_iff.mp hle))

theorem size_of_cons {c : Char} {rest : List Char}
    (h : tailAt b.text offset = ⟨0, c :: rest⟩) : b.size = offset + width (c :: rest) := by
  obtain ⟨front, htext, rfl⟩ := exists_append_of_tailAt h (List.cons_ne_nil c rest)
  rw [Bytes.size_eq, htext, width_append]

theorem charAt_of_charAt? {c : Char} (h : charAt? b.text offset = some c) :
    b.charAt offset = c := by
  rw [charAt, h]
  rfl

theorem charAt_of_cons {c : Char} {rest : List Char}
    (h : tailAt b.text offset = ⟨0, c :: rest⟩) : b.charAt offset = c :=
  charAt_of_charAt? (charAt?_of_tailAt h)

theorem peek_eq_getElem (h : offset < (encode b.text).length) :
    b.peek offset = Char.ofNat (encode b.text)[offset].toNat := by
  rw [peek_eq, byteAt, List.getElem?_eq_getElem h]

/-- The end of a run in the array is that in the text. -/
theorem runEnd_eq_text (b : Bytes) (accept : Char → Bool) (offset : Nat) :
    b.runEnd accept offset = Text.runEnd (fun code => accept (Char.ofNat code)) b.text offset := by
  have hsize : b.size = (encode b.text).length := by rw [size_eq, length_encode]
  unfold Text.runEnd
  fun_induction runEnd b accept offset with
  | case1 offset hlt hacc ih =>
    rw [hsize] at hlt
    rw [peek_eq_getElem hlt] at hacc
    rw [ih, List.drop_eq_getElem_cons hlt, List.takeWhile_cons, if_pos hacc, List.length_cons]
    omega
  | case2 offset hlt hacc =>
    rw [hsize] at hlt
    rw [peek_eq_getElem hlt] at hacc
    rw [List.drop_eq_getElem_cons hlt, List.takeWhile_cons, if_neg hacc]
    rfl
  | case3 offset hge =>
    rw [List.drop_eq_nil_of_le (by omega)]
    rfl

/-- **A run of bytes is a run of characters**: it ends behind the longest one of the class. -/
theorem runEnd_eq {accept : Char → Bool} (hf : ReadsAscii accept) {rest : List Char}
    (h : tailAt b.text offset = ⟨0, rest⟩) :
    b.runEnd accept offset = offset + width (rest.takeWhile accept) := by
  obtain ⟨torn, hdrop, hlen, _⟩ := drop_encode b.text offset
  rw [h] at hdrop hlen
  rw [runEnd_eq_text, Text.runEnd, hdrop, List.eq_nil_of_length_eq_zero hlen, List.nil_append,
    hf.takeWhile_encode, length_encode]

end Bytes

end SourceScan.Text
