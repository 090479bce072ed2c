import SourceScan.Proofs.Emission
import SourceScan.Proofs.Literals

/-!
# Proofs/Arity.lean -- a char literal is one character

How many characters a char literal holds is counted on what it is decoded to; where the fault of a
second one is, is taken from the offsets that go along with the decoded characters. This file shows
that both speak of the same items of the source.

* `Items.decoded_eq_none_iff`: the only item that counts as no character is `\;`.
* `Item.FirstTwo`: the items that the first two decoded characters come from.
* `Arity`: what becomes of a closed char literal, by the number of its characters.
* **`charLiteral_arity`**: so it is for every closed char literal that a pass reaches.
-/

namespace SourceScan

open Text

/-! ## 1. Items that count -/

/-- What an item is written as. -/
def Item.text (source : List Char) (i : Item) : List Char :=
  slice source i.start i.stop

/-- Two items that are decoded to a character each, and no other of the items up to the second. -/
def Item.FirstTwo (items : List Item) (first second : Item) : Prop :=
  ∃ ahead between behind, items = ahead ++ first :: (between ++ second :: behind) ∧
    (∀ i ∈ ahead ++ between, i.decoded = none) ∧
    first.decoded.isSome = true ∧ second.decoded.isSome = true

section Items

variable {source : List Char} {quote : Quote} {here stop : Nat} {i first second : Item}
  {items : List Item}

theorem Item.IsEscape.exists_text (h : i.IsEscape source) :
    ∃ spelling rest, i.text source = '\\' :: spelling ∧ Escape.Spells spelling rest i.decoded := by
  obtain ⟨front, spelling, rest, hsource, hstart, hstop, hspells⟩ := h.spelled
  refine ⟨spelling, rest, ?_, hspells⟩
  have htail : tailAt source (width front) = ⟨0, ('\\' :: spelling) ++ rest⟩ := by
    rw [hsource]
    exact tailAt_width_append ..
  rw [Item.text, hstart, hstop, width_append]
  exact slice_of_tailAt htail (List.cons_ne_nil _ _)

theorem Item.text_ofChar {c : Char} (h : charAt? source here = some c) :
    (Item.ofChar here c).text source = [c] := by
  obtain ⟨rest, htail⟩ := exists_tailAt_of_charAt? h
  have hslice : slice source here (here + width [c]) = [c] :=
    slice_of_tailAt htail (List.cons_ne_nil c [])
  rwa [width_cons, width_nil, Nat.add_zero] at hslice

/-- The empty escape stands for nothing, and it alone. -/
theorem Escape.Spells.decoded_eq_none_iff {spelling rest : List Char} {decoded : Option Char}
    (h : Escape.Spells spelling rest decoded) : decoded = none ↔ spelling = [';'] := by
  cases h with
  | nothing => exact iff_of_true rfl rfl
  | named hd =>
    refine iff_of_false (Option.some_ne_none _) fun hspelling => ?_
    cases hspelling
    cases hd
  | decimal hne hrun =>
    refine iff_of_false (Option.some_ne_none _) fun hspelling => ?_
    have hdigit := hrun.accepted ';' (hspelling ▸ List.mem_cons_self)
    exact absurd hdigit (by decide)
  | selected hradix =>
    refine iff_of_false (Option.some_ne_none _) fun hspelling => ?_
    cases hspelling
    cases hradix

/-- **Every item counts as one character, but for the empty escape.** -/
theorem Items.decoded_eq_none_iff (h : Items source quote here items stop) (hi : i ∈ items) :
    i.decoded = none ↔ i.text source = ['\\', ';'] := by
  rcases h.escape_or_character hi with hescape | ⟨c, hc, -, hcharacter⟩
  · obtain ⟨spelling, rest, htext, hspells⟩ := hescape.exists_text
    rw [htext, hspells.decoded_eq_none_iff, List.cons_inj_right]
  · have hdecoded : i.decoded = some c := congrArg Item.decoded hcharacter
    have htext : i.text source = [c] := by
      rw [hcharacter]
      exact Item.text_ofChar hc
    rw [hdecoded, htext]
    exact iff_of_false (Option.some_ne_none _) (by simp)

/-- The second decoded character is written behind what the first is written as. -/
theorem Item.FirstTwo.stop_le (h : Item.FirstTwo items first second)
    (hitems : Items source quote here items stop) : first.stop ≤ second.start := by
  obtain ⟨ahead, between, behind, rfl, -⟩ := h
  have hbehind := (List.pairwise_append.mp hitems.apart).2.1
  exact (List.pairwise_cons.mp hbehind).1 second
    (List.mem_append_right between List.mem_cons_self)

theorem Item.FirstTwo.mem (h : Item.FirstTwo items first second) : second ∈ items := by
  obtain ⟨ahead, between, behind, rfl, -⟩ := h
  simp

/-- Two decoded characters and more come from two items and others behind them. -/
theorem Item.exists_firstTwo (h : 2 ≤ (Item.contents items).length) :
    ∃ d e more first second, Item.contents items = d :: e :: more ∧
      Item.FirstTwo items first second ∧ e.offset = second.start := by
  have hoffsets := Item.offsets_contents items
  generalize Item.contents items = contents at h hoffsets
  rcases contents with _ | ⟨d, _ | ⟨e, more⟩⟩
  · exact absurd h (by decide)
  · exact absurd h (Nat.not_succ_le_self 1)
  rw [List.map_cons, List.map_cons] at hoffsets
  obtain ⟨first, behindFirst, hfirst, -, hrest⟩ := List.map_eq_cons_iff.mp hoffsets.symm
  obtain ⟨second, others, rfl, hsecond, -⟩ := List.map_eq_cons_iff.mp hrest
  obtain ⟨ahead, rest, rfl, hahead, hone, hothers⟩ := List.filter_eq_cons_iff.mp hfirst
  obtain ⟨between, behind, rfl, hbetween, hsome, -⟩ := List.filter_eq_cons_iff.mp hothers
  refine ⟨d, e, more, first, second, rfl, ⟨ahead, between, behind, rfl, fun i hi => ?_, hone, hsome⟩,
    hsecond.symm⟩
  have hnot : ¬ i.decoded.isSome = true := (List.mem_append.mp hi).elim (hahead i) (hbetween i)
  exact Option.not_isSome_iff_eq_none.mp hnot

end Items

/-! ## 2. Arity -/

/-- What becomes of a closed char literal from `start` to `stop` with `items` between its marks, in a
    pass over `source` whose log is `behind` when the literal has been read: the pass emits a token if
    the items are decoded to one character, and halts if to none or more. -/
structure Arity (source : List Char) (log : Log) (start stop : Nat) (items : List Item)
    (behind : Log) : Prop where
  between : Items source .char (start + 1) items (stop - 1)
  closing : charAt? source (stop - 1) = some Quote.char.mark
  counted : ∀ i ∈ items, i.decoded = none ↔ i.text source = ['\\', ';']
  emits_iff : ∀ c, Pass.Emits source log ⟨.charLiteral c, start, stop - start⟩ ↔
    items.filterMap Item.decoded = [c]
  empty : items.filterMap Item.decoded = [] → ∃ position,
    tokenize source log = (behind.fail "char literal cannot be empty" position, none) ∧
      position.start = start ∧ position.length = stop - start ∧ position.pointer = 1
  crowded : 2 ≤ (items.filterMap Item.decoded).length → ∃ first second position,
    Item.FirstTwo items first second ∧
      tokenize source log = (behind.fail "too many characters in char literal" position, none) ∧
      position.start = start ∧ position.length = stop - start ∧ position.target = second.start ∧
      first.stop ≤ second.start ∧ second.start < stop - 1 ∧
      (second.IsEscape source ∨
        ∃ c, charAt? source second.start = some c ∧ c ≠ '\\' ∧ second = .ofChar second.start c)

/-- **A char literal that is closed is a token if and only if one character is decoded from it**: a
    literal of none is an error about the whole of it, and one of more an error that points at where
    the second character is written. -/
theorem charLiteral_arity {source : List Char} {log ahead behind : Log} {tokens : List Token}
    {start stop : Nat} {contents : List Decoded}
    (hreach : (Pass.pieces (Bytes.of source)).Reaches ⟨0, log⟩ tokens ⟨start, ahead⟩)
    (hopen : charAt? source start = some Quote.char.mark)
    (hliteral : (Pass.literal (Bytes.of source) .char).run ⟨start, ahead⟩ =
      (some contents, ⟨stop, behind⟩)) :
    ∃ items, Arity source log start stop items behind := by
  obtain ⟨items, last, hitems, hmark, rfl, hq⟩ := items_of_literal hopen hliteral
  obtain rfl : stop = last + 1 := congrArg Progress.offset hq
  have hle := hitems.le
  have hchars := Item.chars_contents items
  have hstep := charLiteral_step hopen hliteral
  refine ⟨items, {
    between := hitems
    closing := hmark
    counted := fun i hi => hitems.decoded_eq_none_iff hi
    emits_iff := fun c => ?_
    empty := fun hnone => ?_
    crowded := fun hmore => ?_ }⟩
  · rw [emits_iff hreach rfl, hstep, ← hchars]
    rcases Item.contents items with _ | ⟨d, _ | ⟨second, more⟩⟩
    · simp
    · have hstop : min (last + 1) (Bytes.of source).size = last + 1 := by
        rw [Bytes.size_eq]
        exact Nat.min_eq_left (lt_width_of_charAt? hmark)
      simp [Pass.tokenOf, hstop]
    · simp
  · rw [← hchars] at hnone
    rw [List.map_eq_nil_iff.mp hnone] at hstep
    refine ⟨_, tokenize_of_halt hreach hstep, rfl, rfl, ?_⟩
    show min 1 (last + 1 - start) = 1
    omega
  · rw [← hchars, List.length_map] at hmore
    obtain ⟨d, e, more, first, second, hcontents, htwo, hoffset⟩ := Item.exists_firstTwo hmore
    obtain ⟨hstart, hlt, hstop, -⟩ := hitems.within htwo.mem
    rw [hcontents] at hstep
    refine ⟨first, second, _, htwo, tokenize_of_halt hreach hstep, rfl, rfl, ?_,
      htwo.stop_le hitems, ?_, hitems.escape_or_character htwo.mem⟩
    · show start + min (e.offset - start) (last + 1 - start) = second.start
      omega
    · show second.start < last
      omega

/-- Behind `a`, a literal of an empty escape, `é` and a numeric escape: the error points at the
    backslash of the last. -/
theorem charLiteral_arity_empty_escape :
    (Pass.pieces (Bytes.of "a'\\;é\\x41'".toList)).Reaches ⟨0, .empty⟩ [⟨.identifier "a", 0, 1⟩]
        ⟨1, .empty⟩ ∧
      charAt? "a'\\;é\\x41'".toList 1 = some Quote.char.mark ∧
      (Pass.literal (Bytes.of "a'\\;é\\x41'".toList) .char).run ⟨1, .empty⟩ =
        (some [⟨'é', 4⟩, ⟨'A', 6⟩], ⟨11, .empty⟩) ∧
      ∃ items, Arity "a'\\;é\\x41'".toList .empty 1 11 items .empty := by
  have hreach : (Pass.pieces (Bytes.of "a'\\;é\\x41'".toList)).Reaches ⟨0, .empty⟩
      [⟨.identifier "a", 0, 1⟩] ⟨1, .empty⟩ :=
    .single (by decide +kernel)
  have hopen : charAt? "a'\\;é\\x41'".toList 1 = some Quote.char.mark := by decide
  have hliteral : (Pass.literal (Bytes.of "a'\\;é\\x41'".toList) .char).run ⟨1, .empty⟩ =
      (some [⟨'é', 4⟩, ⟨'A', 6⟩], ⟨11, .empty⟩) := by decide +kernel
  exact ⟨hreach, hopen, hliteral, charLiteral_arity hreach hopen hliteral⟩

end SourceScan
