import SourceScan.Literal.Escape

/-!
# Literal/Basic.lean -- char and string literals

A literal runs from its quotation mark to the next one that is not part of an escape. Between them
stand escapes and any characters but the mark, the backslash and NUL. NUL ends a text wherever it
stands, so a literal that holds one is not closed.

* `Literal.body`: the contents and the closing mark, from the text behind the opening one;
  `Literal.stop_of_body`: where it stops.
* `Literal.readAt`: the same from an offset into a text, which need not be at a quotation mark.
-/

namespace SourceScan

open Text

/-- The two kinds of quotation. -/
inductive Quote where
  | char
  | string
deriving DecidableEq, Repr

/-- The quotation mark. -/
def Quote.mark : Quote → Char
  | char => '\''
  | string => '"'

theorem Quote.utf8Size_mark (quote : Quote) : quote.mark.utf8Size = 1 := by
  cases quote <;> rfl

/-- A decoded character and the offset where it is written. -/
structure Decoded where
  char : Char
  offset : Nat
deriving DecidableEq, Repr

/-- The contents of a literal, the number of characters it takes behind the opening mark, and the
    offset behind the closing one. -/
structure Literal where
  contents : List Decoded
  count : Nat
  stop : Nat
deriving DecidableEq, Repr

namespace Literal

/-- The characters a literal stands for. -/
def chars (l : Literal) : List Char :=
  l.contents.map Decoded.char

/-- The offsets where they are written. -/
def offsets (l : Literal) : List Nat :=
  l.contents.map Decoded.offset

/-- The literal with contents in front, which take `count` characters of the text. -/
def behind (l : Literal) (contents : List Decoded) (count : Nat) : Literal :=
  ⟨contents ++ l.contents, count + l.count, l.stop⟩

/-- The end of a text, or a NUL, ahead of the closing mark: `start` is the offset of the opening
    mark, `offset` that of the place reached. -/
def unclosed (start offset : Nat) : Stage Literal :=
  .fail .unexpectedEnd (.clamped start (offset - start + 1) (offset - start)) offset

/-- The rest of a literal from `offset` on, closing mark included, where `start` is the offset of
    its opening mark. -/
def body (quote : Quote) (start offset : Nat) : List Char → Stage Literal
  | [] => unclosed start offset
  | c :: cs =>
    if c = quote.mark then pure ⟨[], 1, offset + 1⟩
    else if c = '\x00' then unclosed start offset
    else if c = '\\' then do
      let escape ← Escape.read offset (some c) cs
      let rest ← body quote start escape.stop (cs.drop escape.count)
      return rest.behind (escape.decoded.toList.map (⟨·, offset⟩)) (1 + escape.count)
    else do
      let rest ← body quote start (offset + c.utf8Size) cs
      return rest.behind [⟨c, offset⟩] 1
termination_by cs => cs.length
decreasing_by all_goals simp only [List.length_cons, List.length_drop]; omega

/-- A literal stops behind what it takes. -/
theorem stop_of_body {quote : Quote} {start offset : Nat} {cs : List Char} {l : Literal}
    (h : (body quote start offset cs).outcome = .ok l) :
    l.count ≤ cs.length ∧ l.stop = offset + width (cs.take l.count) := by
  fun_induction body quote start offset cs generalizing l with
  | case1 => cases h
  | case2 offset cs =>
    cases h
    have hsize : width [quote.mark] = 1 := by cases quote <;> rfl
    refine ⟨Nat.le_add_left .., ?_⟩
    show offset + 1 = offset + width [quote.mark]
    rw [hsize]
  | case3 => cases h
  | case4 offset cs hmark hend ih =>
    obtain ⟨e, hescape, h⟩ := Stage.bind_eq_ok h
    obtain ⟨rest, hrest, h⟩ := Stage.bind_eq_ok h
    cases h
    obtain ⟨hcount, hstop⟩ := Escape.stop_of_read hescape
    obtain ⟨hcount', hstop'⟩ := ih e hrest
    rw [List.length_drop] at hcount'
    refine ⟨?_, ?_⟩
    · show 1 + e.count + rest.count ≤ cs.length + 1
      omega
    · show rest.stop = offset + width (('\\' :: cs).take (1 + e.count + rest.count))
      rw [Nat.add_comm 1, Nat.add_right_comm, List.take_succ_cons, List.take_add, width_cons,
        width_append, hstop', hstop]
      have hsize : '\\'.utf8Size = 1 := rfl
      omega
  | case5 offset c cs hmark hend hescape ih =>
    obtain ⟨rest, hrest, h⟩ := Stage.bind_eq_ok h
    cases h
    obtain ⟨hcount, hstop⟩ := ih hrest
    refine ⟨?_, ?_⟩
    · show 1 + rest.count ≤ cs.length + 1
      omega
    · show rest.stop = offset + width ((c :: cs).take (1 + rest.count))
      rw [Nat.add_comm 1, List.take_succ_cons, width_cons, hstop, Nat.add_assoc]

/-- The literal whose opening mark is taken to stand at an offset of a text. Bytes that a preceding
    character leaves behind the mark stand for U+0000 each. -/
def readAt (quote : Quote) (source : List Char) (start : Nat) : Stage Literal :=
  let tail := tailAt source (start + 1)
  let torn := (List.range tail.torn).map fun i => ⟨'\x00', start + 1 + i⟩
  do
    let rest ← body quote start (start + 1 + tail.torn) tail.rest
    return rest.behind torn tail.torn

end Literal

end SourceScan
