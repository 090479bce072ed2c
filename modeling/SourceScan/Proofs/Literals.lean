import SourceScan.Proofs.Decomposition

/-!
# Proofs/Literals.lean -- a literal is its items

Behind its opening mark a literal goes on as long as items stand one behind the other. What stands
behind the last of them decides what becomes of it: the closing mark, an escape that is none, or the
end of the text.

* `Item`, `Items`: what a character or an escape is decoded to, and a sequence of these from one
  offset to another.
* `exists_items`: from every boundary on stand items, up to something that is none.
* `Items.run`: what a pass over items comes to, from what it comes to behind them.
* `Arranged`: where the items and the marks of a literal stand.
* **`literal_run`**: what becomes of a literal.
-/

namespace SourceScan

open Text

/-! ## 1. Items -/

/-- A stretch of a source, the character it is decoded to, if there is one, and the warnings that
    are given about it. -/
structure Item where
  start : Nat
  stop : Nat
  decoded : Option Char
  warnings : List Message

namespace Item

/-- A character that stands for itself. -/
def ofChar (start : Nat) (c : Char) : Item :=
  ⟨start, start + c.utf8Size, some c, []⟩

/-- A backslash, and the escape that a pass accepts there. -/
structure IsEscape (source : List Char) (i : Item) : Prop where
  lead : charAt? source i.start = some '\\'
  accepted : ∀ log, (Pass.escape (Bytes.of source)).run ⟨i.start, log⟩ =
    (some i.decoded, ⟨i.stop, log.append i.warnings⟩)

/-- What items are decoded to, each character with the offset of its item. -/
def contents (items : List Item) : List Decoded :=
  items.filterMap fun i => i.decoded.map (⟨·, i.start⟩)

theorem contents_cons (i : Item) (items : List Item) :
    contents (i :: items) = i.decoded.toList.map (⟨·, i.start⟩) ++ contents items := by
  unfold contents
  rw [List.filterMap_cons]
  cases i.decoded <;> rfl

end Item

/-- Items from one offset to another, one behind the other: characters other than the mark, NUL and
    the backslash, and escapes. -/
inductive Items (source : List Char) (quote : Quote) : Nat → List Item → Nat → Prop
  | nil (here : Nat) : Items source quote here [] here
  | character {here stop : Nat} {c : Char} {items : List Item} (hc : charAt? source here = some c)
      (hmark : c ≠ quote.mark) (hend : c ≠ '\x00') (hescape : c ≠ '\\')
      (h : Items source quote (here + c.utf8Size) items stop) :
      Items source quote here (.ofChar here c :: items) stop
  | escape {i : Item} {items : List Item} {stop : Nat} (hescape : i.IsEscape source)
      (h : Items source quote i.stop items stop) : Items source quote i.start (i :: items) stop

variable {source : List Char} {quote : Quote} {start here stop : Nat} {i : Item} {items : List Item}

/-- An escape is spelled in the source: what follows does not belong to it. -/
theorem Item.IsEscape.spelled (h : i.IsEscape source) :
    ∃ front spelling rest, source = front ++ '\\' :: (spelling ++ rest) ∧ i.start = width front ∧
      i.stop = width (front ++ '\\' :: spelling) ∧ Escape.Spells spelling rest i.decoded := by
  obtain ⟨cs, htail⟩ := exists_tailAt_of_charAt? h.lead
  obtain ⟨front, hsource, hstart⟩ := exists_append_of_tailAt htail (List.cons_ne_nil _ cs)
  have hrun := (escape_follows (Bytes.of source) i.start .empty).symm.trans (h.accepted .empty)
  rw [Bytes.text_of, Escape.readAt_of_tailAt htail, Stage.runOn] at hrun
  cases hread : (Escape.read i.start (some '\\') cs).outcome with
  | error f =>
    rw [hread] at hrun
    cases hrun
  | ok e =>
    rw [hread] at hrun
    obtain ⟨hdecoded, hprogress⟩ := Prod.mk.inj hrun
    obtain ⟨-, hstop⟩ := Escape.stop_of_read hread
    refine ⟨front, cs.take e.count, cs.drop e.count, ?_, hstart, ?_, ?_⟩
    · rw [List.take_append_drop, hsource]
    · rw [← (Progress.mk.inj hprogress).1, hstop, hstart, width_append, width_cons, Nat.add_assoc]
      rfl
    · exact Option.some.inj hdecoded ▸ spells_of_read hread

theorem Item.IsEscape.start_lt_stop (h : i.IsEscape source) : i.start < i.stop := by
  obtain ⟨front, spelling, rest, -, hstart, hstop, -⟩ := h.spelled
  have hpos := '\\'.utf8Size_pos
  rw [hstart, hstop, width_append, width_cons]
  omega

/-- Behind an escape the source may be cut. -/
theorem Item.IsEscape.isBoundary_stop (h : i.IsEscape source) : IsBoundary source i.stop := by
  obtain ⟨front, spelling, rest, hsource, -, hstop, -⟩ := h.spelled
  have hdivided : source = (front ++ '\\' :: spelling) ++ rest := by
    rw [hsource, List.append_assoc, List.cons_append]
  rw [hstop, hdivided]
  exact isBoundary_width _ rest

/-- At a backslash there is no other escape. -/
theorem Item.IsEscape.unique {j : Item} (h : i.IsEscape source) (h' : j.IsEscape source)
    (hstart : i.start = j.start) : i = j := by
  obtain ⟨start, stop, decoded, warnings⟩ := i
  obtain ⟨start', stop', decoded', warnings'⟩ := j
  cases hstart
  have hrun := (h.accepted .empty).symm.trans (h'.accepted .empty)
  cases hrun
  rfl

/-- A backslash begins an escape that is accepted, or one that halts whatever the log is. -/
theorem escape_or_halts (h : charAt? source here = some '\\') :
    (∃ i : Item, i.start = here ∧ i.IsEscape source) ∨
      ∀ log, ∃ q, (Pass.escape (Bytes.of source)).run ⟨here, log⟩ = (none, q) := by
  have hfollows := escape_follows (Bytes.of source) here
  cases hread : (Escape.readAt source here).outcome with
  | error f =>
    refine .inr fun log => ⟨⟨f.stop, log.append (Escape.readAt source here).messages⟩, ?_⟩
    rw [hfollows log, Bytes.text_of, Stage.runOn, hread]
  | ok e =>
    refine .inl ⟨⟨here, e.stop, e.decoded, (Escape.readAt source here).messages⟩, rfl, h,
      fun log => ?_⟩
    rw [hfollows log, Bytes.text_of, Stage.runOn, hread]

/-- Behind the opening mark items may stand. -/
theorem isBoundary_behind_mark (hopen : charAt? source start = some quote.mark) :
    IsBoundary source (start + 1) :=
  quote.utf8Size_mark ▸ (isBoundary_of_charAt? hopen).2

/-- **From every boundary on stand items**, up to a mark, an escape that halts, a NUL or the end. -/
theorem exists_items (quote : Quote) (hhere : IsBoundary source here) :
    ∃ items stop, Items source quote here items stop ∧
      (charAt? source stop = some quote.mark ∨
        (charAt? source stop = some '\\' ∧
          ∀ log, ∃ q, (Pass.escape (Bytes.of source)).run ⟨stop, log⟩ = (none, q)) ∨
        charAt? source stop = some '\x00' ∨ stop = width source) := by
  -- an item that stands at the offset goes forward inside the source
  induction hleft : width source - here using Nat.strongRecOn generalizing here with
  | ind left ih =>
    obtain ⟨torn, rest, htail⟩ : ∃ torn rest, tailAt source here = ⟨torn, rest⟩ := ⟨_, _, rfl⟩
    obtain rfl : torn = 0 := by
      rw [← hhere.2, htail]
    have hchar : charAt? source here = rest.head? := charAt?_of_tailAt htail
    cases rest with
    | nil =>
      have hle : width source ≤ here :=
        Bytes.size_eq (Bytes.of source) ▸ Bytes.size_le_iff.mpr htail
      exact ⟨[], here, .nil here, .inr (.inr (.inr (Nat.le_antisymm hhere.1 hle)))⟩
    | cons c cs =>
      have hlt : here < width source := lt_width_of_charAt? hchar
      by_cases hmark : c = quote.mark
      · exact ⟨[], here, .nil here, .inl (hmark ▸ hchar)⟩
      by_cases hend : c = '\x00'
      · exact ⟨[], here, .nil here, .inr (.inr (.inl (hend ▸ hchar)))⟩
      by_cases hescape : c = '\\'
      · subst hescape
        rcases escape_or_halts hchar with ⟨i, rfl, hi⟩ | hhalts
        · have hforward := hi.start_lt_stop
          obtain ⟨items, stop, hitems, hstop⟩ :=
            ih (width source - i.stop) (by omega) hi.isBoundary_stop rfl
          exact ⟨i :: items, stop, .escape hi hitems, hstop⟩
        · exact ⟨[], here, .nil here, .inr (.inl ⟨hchar, hhalts⟩)⟩
      · have hforward := c.utf8Size_pos
        obtain ⟨items, stop, hitems, hstop⟩ :=
          ih (width source - (here + c.utf8Size)) (by omega) (isBoundary_of_charAt? hchar).2 rfl
        exact ⟨.ofChar here c :: items, stop, .character hchar hmark hend hescape hitems, hstop⟩

/-! ## 2. The pass over items -/

/-- **A pass over items decodes them**, and goes on behind them with their warnings in the log. -/
theorem Items.run (h : Items source quote here items stop) {log : Log}
    {result : Option (List Decoded)} {q : Progress}
    (hstop : (Pass.literalItems (Bytes.of source) quote start).all.run
      ⟨stop, log.append (items.flatMap Item.warnings)⟩ = (result, q)) :
    (Pass.literalItems (Bytes.of source) quote start).all.run ⟨here, log⟩ =
      (result.map (Item.contents items ++ ·), q) := by
  induction h generalizing log with
  | nil here =>
    rw [List.flatMap_nil, append_nil] at hstop
    rw [hstop]
    cases result <;> rfl
  | @character here stop c items hc hmark hend hescape h ih =>
    have hrest := ih hstop
    rw [Steps.run_all_items (literalItem_character hc hmark hend hescape log), Pass.run_bind, hrest]
    cases result <;> rfl
  | @escape i items stop hescape h ih =>
    rw [List.flatMap_cons, ← append_append] at hstop
    have hrest := ih hstop
    rw [Steps.run_all_bind (literalItem_escape hescape.lead log),
      Pass.run_bind_some (hescape.accepted log), Pass.run_bind, hrest, Item.contents_cons]
    cases result with
    | none => rfl
    | some rest => rw [Option.map_some, Option.map_some, List.append_assoc]; rfl

/-- How a literal halts at `stop` that opens at `start`: as the escape does that begins there, or, at
    a NUL or the end of the source, because it is not closed. -/
inductive LiteralHalts (source : List Char) (start stop : Nat) (log : Log) (q : Progress) : Prop
  | escape (hlead : charAt? source stop = some '\\')
      (hrun : (Pass.escape (Bytes.of source)).run ⟨stop, log⟩ = (none, q))
  | unclosed (hend : charAt? source stop = some '\x00' ∨ stop = width source)
      (hq : q = ⟨stop, log.fail "unexpected EOF"
        (.clamped start (stop - start + 1) (stop - start))⟩)

theorem Items.run_of_mark (h : Items source quote (start + 1) items stop)
    (hmark : charAt? source stop = some quote.mark) (log : Log) :
    (Pass.literal (Bytes.of source) quote).run ⟨start, log⟩ =
      (some (Item.contents items), ⟨stop + 1, log.append (items.flatMap Item.warnings)⟩) := by
  have hlast : (Pass.literalItems (Bytes.of source) quote start).all.run
      ⟨stop, log.append (items.flatMap Item.warnings)⟩ =
        (some [], ⟨stop + 1, log.append (items.flatMap Item.warnings)⟩) :=
    Steps.run_all_last (literalItem_mark hmark _)
  have hrun := h.run hlast
  rw [Option.map_some, List.append_nil] at hrun
  exact hrun

theorem Items.run_of_halts {log : Log} {q : Progress} (h : Items source quote (start + 1) items stop)
    (hhalts : LiteralHalts source start stop (log.append (items.flatMap Item.warnings)) q) :
    (Pass.literal (Bytes.of source) quote).run ⟨start, log⟩ = (none, q) := by
  refine h.run (Steps.run_all_none ?_)
  cases hhalts with
  | escape hlead hrun => rw [literalItem_escape hlead, Pass.run_bind_none hrun]
  | unclosed hend hq =>
    rw [hq, literalItem_unclosed (hend.imp_right fun hstop => ?_)]
    · rfl
    · rw [Bytes.size_eq, hstop]
      exact Nat.le_refl _

/-- Behind an opening mark stand items up to the closing one, or up to where the literal halts. -/
theorem mark_or_halts (hopen : charAt? source start = some quote.mark) (log : Log) :
    ∃ items stop, Items source quote (start + 1) items stop ∧
      (charAt? source stop = some quote.mark ∨
        ∃ q, LiteralHalts source start stop (log.append (items.flatMap Item.warnings)) q) := by
  obtain ⟨items, stop, hitems, hstop⟩ := exists_items quote (isBoundary_behind_mark hopen)
  refine ⟨items, stop, hitems, ?_⟩
  rcases hstop with hmark | ⟨hlead, hhalts⟩ | hend
  · exact .inl hmark
  · obtain ⟨q, hrun⟩ := hhalts (log.append (items.flatMap Item.warnings))
    exact .inr ⟨q, .escape hlead hrun⟩
  · exact .inr ⟨_, .unclosed hend rfl⟩

/-- A literal that is closed is what its items are decoded to. -/
theorem items_of_literal (hopen : charAt? source start = some quote.mark) {log : Log}
    {contents : List Decoded} {q : Progress}
    (h : (Pass.literal (Bytes.of source) quote).run ⟨start, log⟩ = (some contents, q)) :
    ∃ items stop, Items source quote (start + 1) items stop ∧
      charAt? source stop = some quote.mark ∧ contents = Item.contents items ∧
        q = ⟨stop + 1, log.append (items.flatMap Item.warnings)⟩ := by
  obtain ⟨items, stop, hitems, hmark | ⟨r, hhalts⟩⟩ := mark_or_halts hopen log
  · rw [hitems.run_of_mark hmark log] at h
    cases h
    exact ⟨items, stop, hitems, hmark, rfl, rfl⟩
  · cases (hitems.run_of_halts hhalts).symm.trans h

/-- A literal that is not closed halts behind items. -/
theorem halts_of_literal (hopen : charAt? source start = some quote.mark) {log : Log} {q : Progress}
    (h : (Pass.literal (Bytes.of source) quote).run ⟨start, log⟩ = (none, q)) :
    ∃ items stop, Items source quote (start + 1) items stop ∧
      LiteralHalts source start stop (log.append (items.flatMap Item.warnings)) q := by
  obtain ⟨items, stop, hitems, hmark | ⟨r, hhalts⟩⟩ := mark_or_halts hopen log
  · cases (hitems.run_of_mark hmark log).symm.trans h
  · rw [hitems.run_of_halts hhalts] at h
    cases h
    exact ⟨items, stop, hitems, hhalts⟩

/-! ## 3. Where items and marks stand -/

namespace Item

theorem chars_contents (items : List Item) :
    (contents items).map Decoded.char = items.filterMap decoded := by
  induction items with
  | nil => rfl
  | cons i items ih =>
    rw [contents_cons, List.map_append, ih, List.filterMap_cons]
    cases i.decoded <;> rfl

theorem offsets_contents (items : List Item) :
    (contents items).map Decoded.offset = (items.filter (·.decoded.isSome)).map Item.start := by
  induction items with
  | nil => rfl
  | cons i items ih =>
    rw [contents_cons, List.map_append, ih, List.filter_cons]
    cases i.decoded <;> rfl

end Item

namespace Items

theorem le (h : Items source quote here items stop) : here ≤ stop := by
  induction h with
  | nil here => exact Nat.le_refl here
  | character _ _ _ _ _ ih => exact Nat.le_trans (Nat.le_add_right ..) ih
  | escape hescape _ ih => exact Nat.le_trans (Nat.le_of_lt hescape.start_lt_stop) ih

/-- Each item takes something, and begins where the source may be cut. -/
theorem within (h : Items source quote here items stop) (hi : i ∈ items) :
    here ≤ i.start ∧ i.start < i.stop ∧ i.stop ≤ stop ∧ IsBoundary source i.start := by
  induction h with
  | nil here => cases hi
  | @character here stop c items hc _ _ _ h ih =>
    rcases List.mem_cons.mp hi with rfl | hi
    · exact ⟨Nat.le_refl here, Nat.lt_add_of_pos_right c.utf8Size_pos, h.le,
        (isBoundary_of_charAt? hc).1⟩
    · obtain ⟨hstart, hbehind⟩ := ih hi
      exact ⟨Nat.le_trans (Nat.le_add_right ..) hstart, hbehind⟩
  | @escape j items stop hescape h ih =>
    rcases List.mem_cons.mp hi with rfl | hi
    · exact ⟨Nat.le_refl _, hescape.start_lt_stop, h.le, (isBoundary_of_charAt? hescape.lead).1⟩
    · obtain ⟨hstart, hbehind⟩ := ih hi
      exact ⟨Nat.le_trans (Nat.le_of_lt hescape.start_lt_stop) hstart, hbehind⟩

theorem pairwise (h : Items source quote here items stop) :
    items.Pairwise (·.start < ·.start) := by
  induction h with
  | nil => exact .nil
  | @character here stop c items _ _ _ _ h ih =>
    refine List.pairwise_cons.mpr ⟨fun j hj => ?_, ih⟩
    exact Nat.lt_of_lt_of_le (Nat.lt_add_of_pos_right c.utf8Size_pos) (h.within hj).1
  | escape hescape h ih =>
    refine List.pairwise_cons.mpr ⟨fun j hj => ?_, ih⟩
    exact Nat.lt_of_lt_of_le hescape.start_lt_stop (h.within hj).1

/-- **Items stand one behind the other.** -/
theorem apart (h : Items source quote here items stop) :
    items.Pairwise (·.stop ≤ ·.start) := by
  induction h with
  | nil => exact .nil
  | character _ _ _ _ h ih => exact List.pairwise_cons.mpr ⟨fun _ hj => (h.within hj).1, ih⟩
  | escape _ h ih => exact List.pairwise_cons.mpr ⟨fun _ hj => (h.within hj).1, ih⟩

/-- An item is an escape, which begins at its backslash, or the character that stands there. -/
theorem escape_or_character (h : Items source quote here items stop) (hi : i ∈ items) :
    i.IsEscape source ∨
      ∃ c, charAt? source i.start = some c ∧ c ≠ '\\' ∧ i = .ofChar i.start c := by
  induction h with
  | nil => cases hi
  | @character here stop c items hc _ _ hescape _ ih =>
    rcases List.mem_cons.mp hi with rfl | hi
    · exact .inr ⟨c, hc, hescape, rfl⟩
    · exact ih hi
  | escape hescape _ ih =>
    rcases List.mem_cons.mp hi with rfl | hi
    · exact .inl hescape
    · exact ih hi

/-- **Between two offsets there are no other items.** -/
theorem unique {items' : List Item} (h : Items source quote here items stop)
    (h' : Items source quote here items' stop) : items = items' := by
  induction h generalizing items' with
  | nil here =>
    cases h' with
    | nil => rfl
    | @character _ _ c _ _ _ _ _ h' =>
      have hle := h'.le
      have hpos := c.utf8Size_pos
      omega
    | escape hescape h' =>
      have hle := h'.le
      have hlt := hescape.start_lt_stop
      omega
  | @character here stop c items hc _ _ hescape h ih =>
    cases h' with
    | nil =>
      have hle := h.le
      have hpos := c.utf8Size_pos
      omega
    | character hc' _ _ _ h' =>
      cases hc.symm.trans hc'
      rw [ih h']
    | escape hescape' _ => exact absurd (Option.some.inj (hc.symm.trans hescape'.lead)) hescape
  | @escape i items stop hescape h ih =>
    generalize hstart : i.start = here at h'
    cases h' with
    | nil =>
      have hle := h.le
      have hlt := hescape.start_lt_stop
      omega
    | character hc' _ _ hescape' _ =>
      have hlead := hescape.lead
      rw [hstart] at hlead
      exact absurd (Option.some.inj (hc'.symm.trans hlead)) hescape'
    | escape hescape' h' =>
      cases hescape.unique hescape' hstart
      rw [ih h']

/-- A mark among items is part of an escape. -/
theorem escape_of_mark (h : Items source quote here items stop) {offset : Nat}
    (hhere : here ≤ offset) (hstop : offset < stop)
    (hmark : charAt? source offset = some quote.mark) :
    ∃ i ∈ items, i.IsEscape source ∧ i.start < offset ∧ offset < i.stop := by
  induction h with
  | nil here => omega
  | @character here stop c items hc hne _ _ h ih =>
    rcases Nat.lt_or_ge offset (here + c.utf8Size) with hlt | hbehind
    · obtain ⟨cs, htail⟩ := exists_tailAt_of_charAt? hc
      obtain ⟨front, rfl, rfl⟩ := exists_append_of_tailAt htail (List.cons_ne_nil c cs)
      obtain ⟨n, rfl⟩ := Nat.exists_eq_add_of_le hhere
      cases n with
      | zero => exact absurd (Option.some.inj (hc.symm.trans hmark)) hne
      | succ n =>
        rw [charAt?_inside (Nat.succ_pos n) (Nat.lt_of_add_lt_add_left hlt)] at hmark
        cases hmark
    · obtain ⟨i, hi, hinside⟩ := ih hbehind hstop
      exact ⟨i, List.mem_cons_of_mem _ hi, hinside⟩
  | @escape i items stop hescape h ih =>
    rcases Nat.lt_or_ge offset i.stop with hlt | hbehind
    · refine ⟨i, List.mem_cons_self, hescape, Nat.lt_of_le_of_ne hhere fun heq => ?_, hlt⟩
      have hlead := hescape.lead
      rw [heq, hmark] at hlead
      cases quote <;> cases hlead
    · obtain ⟨j, hj, hinside⟩ := ih hbehind hstop
      exact ⟨j, List.mem_cons_of_mem _ hj, hinside⟩

end Items

/-- The order in what stands between `start`, where a literal opens, and `stop`, where its items
    end. -/
structure Arranged (source : List Char) (quote : Quote) (start : Nat) (items : List Item)
    (stop : Nat) : Prop where
  chars : (Item.contents items).map Decoded.char = items.filterMap Item.decoded
  offsets : (Item.contents items).map Decoded.offset =
    (items.filter (·.decoded.isSome)).map Item.start
  length_eq : ((Item.contents items).map Decoded.char).length =
    ((Item.contents items).map Decoded.offset).length
  increasing : ((Item.contents items).map Decoded.offset).Pairwise (· < ·)
  between : ∀ offset ∈ (Item.contents items).map Decoded.offset,
    start < offset ∧ offset < stop ∧ IsBoundary source offset
  escapes : ∀ i ∈ items, i.IsEscape source → ∃ front spelling rest,
    source = front ++ '\\' :: (spelling ++ rest) ∧ i.start = width front ∧
      i.stop = width (front ++ '\\' :: spelling) ∧ Escape.Spells spelling rest i.decoded
  marks : ∀ offset, start < offset → offset < stop → charAt? source offset = some quote.mark →
    ∃ i ∈ items, i.IsEscape source ∧ i.start < offset ∧ offset < i.stop
  pointed : (Position.clamped start (stop - start + 1) (stop - start)).target = stop

theorem Items.arranged (h : Items source quote (start + 1) items stop) :
    Arranged source quote start items stop where
  chars := Item.chars_contents items
  offsets := Item.offsets_contents items
  length_eq := by rw [List.length_map, List.length_map]
  increasing := by
    rw [Item.offsets_contents]
    exact (h.pairwise.filter _).map _ fun _ _ hlt => hlt
  between := by
    intro offset hoffset
    rw [Item.offsets_contents] at hoffset
    obtain ⟨i, hi, rfl⟩ := List.mem_map.mp hoffset
    obtain ⟨hstart, hlt, hstop, hboundary⟩ := h.within (List.mem_filter.mp hi).1
    exact ⟨hstart, Nat.lt_of_lt_of_le hlt hstop, hboundary⟩
  escapes := fun _ _ hescape => hescape.spelled
  marks := fun _ hstart hstop hmark => h.escape_of_mark hstart hstop hmark
  pointed := by
    have hlt := h.le
    show start + min (stop - start) (stop - start + 1) = stop
    omega

/-- **A literal is closed if and only if items stand behind its opening mark, and the closing mark
    behind them**; then it is what they are decoded to, and the pass goes on behind that mark. It
    halts if and only if behind the items stands an escape that halts, a NUL or the end of the source.
    A mark ahead of that place is part of an escape, and the characters of the literal have the
    offsets of their items. -/
theorem literal_run (hopen : charAt? source start = some quote.mark) :
    (∀ log contents q,
      (Pass.literal (Bytes.of source) quote).run ⟨start, log⟩ = (some contents, q) ↔
        ∃ items stop, Items source quote (start + 1) items stop ∧
          charAt? source stop = some quote.mark ∧ contents = Item.contents items ∧
          q = ⟨stop + 1, log.append (items.flatMap Item.warnings)⟩) ∧
    (∀ log q, (Pass.literal (Bytes.of source) quote).run ⟨start, log⟩ = (none, q) ↔
      ∃ items stop, Items source quote (start + 1) items stop ∧
        LiteralHalts source start stop (log.append (items.flatMap Item.warnings)) q) ∧
    ∀ items stop, Items source quote (start + 1) items stop →
      Arranged source quote start items stop := by
  refine ⟨fun log contents q => ⟨fun hrun => ?_, ?_⟩, fun log q => ⟨fun hrun => ?_, ?_⟩,
    fun _ _ => Items.arranged⟩
  · obtain ⟨items, stop, hitems, hmark | ⟨r, hhalts⟩⟩ := mark_or_halts hopen log
    · obtain ⟨hcontents, hq⟩ := Prod.mk.inj (hrun.symm.trans (hitems.run_of_mark hmark log))
      exact ⟨items, stop, hitems, hmark, Option.some.inj hcontents, hq⟩
    · cases hrun.symm.trans (hitems.run_of_halts hhalts)
  · rintro ⟨items, stop, hitems, hmark, rfl, rfl⟩
    exact hitems.run_of_mark hmark log
  · obtain ⟨items, stop, hitems, hmark | ⟨r, hhalts⟩⟩ := mark_or_halts hopen log
    · cases hrun.symm.trans (hitems.run_of_mark hmark log)
    · obtain ⟨-, rfl⟩ := Prod.mk.inj (hrun.symm.trans (hitems.run_of_halts hhalts))
      exact ⟨items, stop, hitems, hhalts⟩
  · rintro ⟨items, stop, hitems, hhalts⟩
    exact hitems.run_of_halts hhalts

/-- The mark behind the backslash does not close `"\"é\;"`, and the empty escape adds nothing to it. -/
theorem literal_run_escaped_mark :
    charAt? ['"', '\\', '"', 'é', '\\', ';', '"'] 0 = some Quote.string.mark ∧
      ∀ log, (Pass.literal (Bytes.of ['"', '\\', '"', 'é', '\\', ';', '"']) .string).run ⟨0, log⟩ =
        (some [⟨'"', 1⟩, ⟨'é', 3⟩], ⟨8, log⟩) := by
  have hquote : Item.IsEscape ['"', '\\', '"', 'é', '\\', ';', '"'] ⟨1, 3, some '"', []⟩ :=
    ⟨by decide, fun log => by rw [append_nil]; rfl⟩
  have hempty : Item.IsEscape ['"', '\\', '"', 'é', '\\', ';', '"'] ⟨5, 7, none, []⟩ :=
    ⟨by decide, fun log => by rw [append_nil]; rfl⟩
  have hitems : Items ['"', '\\', '"', 'é', '\\', ';', '"'] .string 1
      [⟨1, 3, some '"', []⟩, .ofChar 3 'é', ⟨5, 7, none, []⟩] 7 :=
    .escape hquote (.character (by decide) (by decide) (by decide) (by decide)
      (.escape hempty (.nil 7)))
  have hopen : charAt? ['"', '\\', '"', 'é', '\\', ';', '"'] 0 = some Quote.string.mark := by decide
  refine ⟨hopen, fun log => ((literal_run hopen).1 log _ _).mpr ⟨_, 7, hitems, by decide, rfl, ?_⟩⟩
  exact congrArg (Progress.mk 8) (append_nil log).symm

end SourceScan
