import SourceScan.Proofs.Emission
import SourceScan.Proofs.Literals
import SourceScan.Proofs.NumericEscapes

/-!
# Proofs/Warnings.lean -- what a pass warns of

The one reason to warn is an escape of a number above 255. Escapes are read as parts of literals, and
these as pieces of a text; on the way from the escape to the log of the whole pass no warning is lost,
made twice or brought out of order, and there is none about a backslash outside a literal.

* `Oversize.StandsIn`: an escape of a number above 255 in a source, said without reading it.
* `Token.Encloses`, `Token.Holds`: what stands between the marks of a literal token.
* `Oversize.Listed`: a list of the warnings that are due between two offsets, in their order.
* `Item.IsEscape.listed`, `Items.listed`, `listed_of_step`, `Steps.Reaches.listed`: the same for an
  escape, for items, for a step and for a pass up to any of its points.
* `listed_of_halt`: a step that halts has listed what it has gone over, and one error behind it.
* **`warnings_of_pass`**: the messages of a pass are the warnings due, and one error if it halts.
-/

namespace SourceScan

open Text

/-! ## 1. Escapes of great numbers -/

namespace Oversize

/-- A numeric escape that is written in a source with a number above 255: the value is the number as
    it is read, the position the text of the escape, from its backslash on. -/
def StandsIn (source : List Char) (w : Oversize) : Prop :=
  ∃ front selector run rest radix, source = front ++ '\\' :: (selector ++ (run ++ rest)) ∧
    Escape.Selects selector radix (run ++ rest) ∧ LongestRun radix.isDigit run rest ∧
    255 < radix.numberOf run ∧ w = ⟨(Numeral.ofDigits radix run).value,
      .clamped (width front) (width ('\\' :: (selector ++ run))) 0⟩

/-- One of the items is such an escape. -/
def Among (source : List Char) (items : List Item) (w : Oversize) : Prop :=
  w.StandsIn source ∧ ∃ i ∈ items, i.start = w.position.start ∧ i.stop = w.position.stop

/-- The warnings that are due, each of them once and in their order, between two offsets. -/
structure Listed (due : Oversize → Prop) (start stop : Nat) (ws : List Oversize) : Prop where
  mem_iff : ∀ w, w ∈ ws ↔ due w
  bounds : ∀ w ∈ ws, start ≤ w.position.start ∧ w.position.stop ≤ stop
  apart : ws.Pairwise fun w w' => w.position.stop ≤ w'.position.start

namespace Listed

variable {due due' : Oversize → Prop} {start middle stop : Nat} {w : Oversize}
  {ws ws' : List Oversize}

theorem nil (h : ∀ w, ¬ due w) : Listed due start stop [] where
  mem_iff := fun w => iff_of_false List.not_mem_nil (h w)
  bounds := fun _ hw => absurd hw List.not_mem_nil
  apart := .nil

theorem singleton (h : ∀ w', due w' ↔ w' = w) : Listed due w.position.start w.position.stop [w] where
  mem_iff := fun w' => List.mem_singleton.trans (h w').symm
  bounds := fun _ hw' => List.mem_singleton.mp hw' ▸ ⟨Nat.le_refl _, Nat.le_refl _⟩
  apart := List.pairwise_singleton ..

theorem of_iff (h : Listed due start stop ws) (hdue : ∀ w, due' w ↔ due w) :
    Listed due' start stop ws where
  mem_iff := fun w => (h.mem_iff w).trans (hdue w).symm
  bounds := h.bounds
  apart := h.apart

theorem widen {start' stop' : Nat} (h : Listed due start stop ws) (hstart : start' ≤ start)
    (hstop : stop ≤ stop') : Listed due start' stop' ws where
  mem_iff := h.mem_iff
  bounds := fun w hw => ⟨hstart.trans (h.bounds w hw).1, (h.bounds w hw).2.trans hstop⟩
  apart := h.apart

/-- **What is due in two stretches is listed one behind the other.** -/
theorem append (h : Listed due start middle ws) (h' : Listed due' middle stop ws')
    (hstart : start ≤ middle) (hstop : middle ≤ stop) :
    Listed (fun w => due w ∨ due' w) start stop (ws ++ ws') where
  mem_iff := fun w => List.mem_append.trans (or_congr (h.mem_iff w) (h'.mem_iff w))
  bounds := fun w hw => (List.mem_append.mp hw).elim
    (fun hw => ⟨(h.bounds w hw).1, (h.bounds w hw).2.trans hstop⟩)
    fun hw => ⟨hstart.trans (h'.bounds w hw).1, (h'.bounds w hw).2⟩
  apart := List.pairwise_append.mpr
    ⟨h.apart, h'.apart, fun w hw w' hw' => (h.bounds w hw).2.trans (h'.bounds w' hw').1⟩

end Listed

end Oversize

open Oversize (Listed)

section Escapes

variable {source : List Char} {w w' : Oversize} {start : Nat}

theorem Oversize.StandsIn.lead (h : w.StandsIn source) :
    charAt? source w.position.start = some '\\' := by
  obtain ⟨front, selector, run, rest, radix, rfl, -, -, -, rfl⟩ := h
  exact charAt?_of_tailAt (tailAt_width_append ..)

theorem Oversize.StandsIn.start_lt_stop (h : w.StandsIn source) :
    w.position.start < w.position.stop := by
  obtain ⟨front, selector, run, rest, radix, -, -, -, -, rfl⟩ := h
  have hpos := '\\'.utf8Size_pos
  show width front < width front + width ('\\' :: (selector ++ run))
  rw [width_cons]
  omega

/-- **Where an escape of a great number stands, the pass reads an escape and warns of it.** -/
theorem Oversize.StandsIn.read_eq (h : w.StandsIn source) :
    ∃ e, Escape.readAt source w.position.start = ⟨[w], .ok e⟩ ∧ e.stop = w.position.stop := by
  obtain ⟨front, selector, run, rest, radix, rfl, hselects, hrun, hlarge, rfl⟩ := h
  have hne : run ≠ [] := by
    rintro rfl
    exact absurd hlarge (Nat.not_lt.mpr (Nat.zero_le 255))
  have hread := @Escape.readAt_of_digits front _ _ _ _ hselects hrun hne
  dsimp only at hread
  rw [if_neg (Nat.not_le.mpr hlarge)] at hread
  exact ⟨_, hread, rfl⟩

/-- At one place stands one escape. -/
theorem Oversize.StandsIn.unique (h : w.StandsIn source) (h' : w'.StandsIn source)
    (hstart : w.position.start = w'.position.start) : w = w' := by
  obtain ⟨e, hread, -⟩ := h.read_eq
  obtain ⟨e', hread', -⟩ := h'.read_eq
  rw [hstart, hread'] at hread
  cases hread
  rfl

theorem warnings_of_selects {front selector behind : List Char} {radix : Radix}
    (h : Escape.Selects selector radix behind) :
    let source := front ++ '\\' :: (selector ++ behind)
    (Escape.readAt source (width front)).warnings = [] ∨
      ∃ w : Oversize, w.StandsIn source ∧ w.position.start = width front ∧
        (Escape.readAt source (width front)).warnings = [w] := by
  intro source
  obtain ⟨run, rest, hbehind, htake, hrun⟩ := exists_longestRun radix.isDigit behind
  subst hbehind
  by_cases hne : run = []
  · have hhere : tailAt source (width front) = ⟨0, '\\' :: (selector ++ (run ++ rest))⟩ :=
      tailAt_width_append ..
    rw [Escape.readAt_of_tailAt hhere, Escape.read_of_selects _ _ h, Escape.numeric, htake, hne]
    exact .inl rfl
  · have hread := @Escape.readAt_of_digits front _ _ _ _ h hrun hne
    dsimp only at hread
    by_cases hsmall : radix.numberOf run ≤ 255
    · rw [if_pos hsmall] at hread
      exact .inl (congrArg Stage.warnings hread)
    · rw [if_neg hsmall] at hread
      exact .inr ⟨_, ⟨front, selector, run, rest, radix, rfl, h, hrun, Nat.not_le.mp hsmall, rfl⟩, rfl,
        congrArg Stage.warnings hread⟩

/-- **At a backslash the pass warns of nothing, or of the escape of a great number there.** -/
theorem warnings_at_backslash (h : charAt? source start = some '\\') :
    (Escape.readAt source start).warnings = [] ∨
      ∃ w : Oversize, w.StandsIn source ∧ w.position.start = start ∧
        (Escape.readAt source start).warnings = [w] := by
  obtain ⟨cs, htail⟩ := exists_tailAt_of_charAt? h
  obtain ⟨front, rfl, rfl⟩ := exists_append_of_tailAt htail (List.cons_ne_nil _ cs)
  cases cs with
  | nil =>
    rw [Escape.readAt_of_tailAt htail]
    exact .inl rfl
  | cons c cs =>
    by_cases hdigit : c.isDigit = true
    · exact warnings_of_selects (.digit hdigit cs)
    cases hradix : Radix.ofEscapeLetter? c with
    | some radix => exact warnings_of_selects (.letter (Escape.mem_of_ofEscapeLetter? hradix) cs)
    | none =>
      refine .inl ?_
      rw [Escape.readAt_of_tailAt htail, Escape.read]
      split
      · rfl
      split
      · rfl
      rw [hradix]
      rfl

/-- An escape that halts has not warned. -/
theorem warnings_of_error {f : Failure} (h : charAt? source start = some '\\')
    (herror : (Escape.readAt source start).outcome = .error f) :
    (Escape.readAt source start).warnings = [] := by
  rcases warnings_at_backslash h with hnone | ⟨w, hw, rfl, -⟩
  · exact hnone
  · obtain ⟨e, hread, -⟩ := hw.read_eq
    rw [hread] at herror
    cases herror

end Escapes

/-! ## 2. Items -/

section Items

variable {source : List Char} {quote : Quote} {here stop : Nat} {i : Item} {items : List Item}

/-- What is said of an escape is what is said where it begins. -/
theorem Item.IsEscape.read_eq (h : i.IsEscape source) :
    ∃ e, (Escape.readAt source i.start).outcome = .ok e ∧ e.stop = i.stop ∧
      i.warnings = (Escape.readAt source i.start).warnings.map Oversize.message := by
  have hrun := (escape_follows (Bytes.of source) i.start .empty).symm.trans (h.accepted .empty)
  rw [Bytes.text_of, Stage.runOn] at hrun
  cases hread : (Escape.readAt source i.start).outcome with
  | error f =>
    rw [hread] at hrun
    cases hrun
  | ok e =>
    rw [hread] at hrun
    obtain ⟨-, hprogress⟩ := Prod.mk.inj hrun
    obtain ⟨hstop, hlog⟩ := Progress.mk.inj hprogress
    refine ⟨e, rfl, hstop, ?_⟩
    have hmessages : (Escape.readAt source i.start).messages = i.warnings :=
      congrArg Log.messages hlog
    rw [← hmessages, Stage.messages, hread, List.append_nil]

/-- **An escape has the warning that is due about it.** -/
theorem Item.IsEscape.listed (h : i.IsEscape source) :
    ∃ ws, i.warnings = ws.map Oversize.message ∧
      Listed (Oversize.Among source [i]) i.start i.stop ws := by
  obtain ⟨e, hread, hstop, hwarnings⟩ := h.read_eq
  rcases warnings_at_backslash h.lead with hnone | ⟨w, hw, hstart, hone⟩
  · refine ⟨[], by rw [hwarnings, hnone], .nil ?_⟩
    rintro w ⟨hw, j, hj, hstart, -⟩
    cases List.mem_singleton.mp hj
    obtain ⟨e', hread', -⟩ := hw.read_eq
    rw [← hstart] at hread'
    rw [hread'] at hnone
    cases hnone
  · obtain ⟨e', hread', hstop'⟩ := hw.read_eq
    rw [hstart] at hread'
    rw [hread'] at hread
    cases hread
    refine ⟨[w], by rw [hwarnings, hone], ?_⟩
    rw [← hstart, ← hstop, hstop']
    refine .singleton fun w' => ⟨?_, ?_⟩
    · rintro ⟨hw', j, hj, hstart', -⟩
      cases List.mem_singleton.mp hj
      exact hw'.unique hw (hstart'.symm.trans hstart.symm)
    · rintro rfl
      exact ⟨hw, i, List.mem_singleton_self i, hstart.symm, hstop.symm.trans hstop'⟩

theorem Oversize.among_cons (w : Oversize) :
    Oversize.Among source (i :: items) w ↔
      Oversize.Among source [i] w ∨ Oversize.Among source items w := by
  simp only [Oversize.Among, List.mem_cons, List.not_mem_nil, or_false, exists_eq_left, or_and_right,
    exists_or, and_or_left]

/-- **Items have the warnings that are due about them**, in their order. -/
theorem Items.listed (h : Items source quote here items stop) :
    ∃ ws, items.flatMap Item.warnings = ws.map Oversize.message ∧
      Listed (Oversize.Among source items) here stop ws := by
  induction h with
  | nil here => exact ⟨[], rfl, .nil fun _ ⟨_, _, hi, _⟩ => absurd hi List.not_mem_nil⟩
  | @character here stop c items hc _ _ hescape h ih =>
    obtain ⟨ws, hws, hlisted⟩ := ih
    refine ⟨ws, hws, (hlisted.widen (Nat.le_add_right ..) (Nat.le_refl _)).of_iff fun w => ?_⟩
    -- no escape begins at a character that is not a backslash
    rw [Oversize.among_cons]
    refine or_iff_right fun ⟨hw, j, hj, hstart, _⟩ => ?_
    cases List.mem_singleton.mp hj
    have hlead := hw.lead
    rw [← hstart] at hlead
    exact hescape (Option.some.inj (hc.symm.trans hlead))
  | escape hescape h ih =>
    obtain ⟨ws, hws, hlisted⟩ := hescape.listed
    obtain ⟨ws', hws', hlisted'⟩ := ih
    refine ⟨ws ++ ws', ?_, (hlisted.append hlisted' (Nat.le_of_lt hescape.start_lt_stop) h.le).of_iff
      Oversize.among_cons⟩
    rw [List.flatMap_cons, hws, hws', List.map_append]

end Items

/-! ## 3. Steps -/

/-- The kind of quotation that a lexeme is. -/
def Lexeme.quote? : Lexeme → Option Quote
  | .charLiteral _ => some .char
  | .stringLiteral _ => some .string
  | _ => none

/-- A token that is a literal, with the items between its marks. -/
structure Token.Encloses (source : List Char) (t : Token) (quote : Quote) (items : List Item) :
    Prop where
  kind : t.lexeme.quote? = some quote
  opening : charAt? source t.extent.offset = some quote.mark
  between : Items source quote (t.extent.offset + 1) items (t.extent.offset + t.extent.length - 1)
  closing : charAt? source (t.extent.offset + t.extent.length - 1) = some quote.mark

/-- An escape of a great number between the marks of a literal token. -/
def Token.Holds (source : List Char) (t : Token) (w : Oversize) : Prop :=
  ∃ quote items, t.Encloses source quote items ∧ w.Among source items

/-- Where the items of a literal end: at the closing mark, at a backslash that begins no escape, at a
    NUL or at the end of the source. -/
def EndsItems (source : List Char) (quote : Quote) (stop : Nat) : Prop :=
  charAt? source stop = some quote.mark ∨
    (charAt? source stop = some '\\' ∧ ∀ i : Item, i.IsEscape source → i.start ≠ stop) ∨
    charAt? source stop = some '\x00' ∨ stop = width source

/-- The items that stand behind a place where no token begins: all those of the literal that opens
    there, or none if no literal does. -/
inductive Unfinished (source : List Char) (here : Nat) : List Item → Prop
  | literal {quote : Quote} {items : List Item} {stop : Nat}
      (hopen : charAt? source here = some quote.mark)
      (hitems : Items source quote (here + 1) items stop) (hstop : EndsItems source quote stop) :
      Unfinished source here items
  | other (h : ∀ quote : Quote, charAt? source here ≠ some quote.mark) : Unfinished source here []

section Steps

variable {source : List Char} {quote : Quote} {log : Log} {p q : Progress} {start : Nat} {t : Token}
  {tokens : List Token} {items : List Item} {w : Oversize}

/-- Between the marks of a token stand no other items. -/
theorem Token.Encloses.holds_iff (h : t.Encloses source quote items) :
    t.Holds source w ↔ w.Among source items := by
  refine ⟨?_, fun hw => ⟨quote, items, h, hw⟩⟩
  rintro ⟨quote', items', h', hw⟩
  cases h.kind.symm.trans h'.kind
  rwa [h.between.unique h'.between]

/-- An escape that a token holds stands behind the token's first byte and ahead of its last. -/
theorem Token.Holds.inside (h : t.Holds source w) :
    t.lexeme.quote?.isSome = true ∧ w.StandsIn source ∧ t.extent.offset < w.position.start ∧
      w.position.stop < t.extent.offset + t.extent.length := by
  obtain ⟨quote, items, henclosed, hw, i, hi, hstart, hstop⟩ := h
  obtain ⟨hbehind, hlt, hahead, -⟩ := henclosed.between.within hi
  refine ⟨by rw [henclosed.kind]; rfl, hw, ?_, ?_⟩ <;> omega

/-- Where a literal halts, its items end. -/
theorem LiteralHalts.endsItems {stop : Nat} (h : LiteralHalts source start stop log q)
    (quote : Quote) : EndsItems source quote stop := by
  cases h with
  | escape hlead hrun =>
    refine .inr (.inl ⟨hlead, ?_⟩)
    rintro i hescape rfl
    cases hrun.symm.trans (hescape.accepted log)
  | unclosed hend hq => exact .inr (.inr hend)

/-- It halts with an error and nothing else. -/
theorem LiteralHalts.log_eq {stop : Nat} (h : LiteralHalts source start stop log q) :
    ∃ error : Message, error.severity = .error ∧ q.log = log.append [error] := by
  cases h with
  | unclosed hend hq =>
    subst hq
    exact ⟨_, rfl, rfl⟩
  | escape hlead hrun =>
    rw [escape_follows, Bytes.text_of, Stage.runOn] at hrun
    cases hread : (Escape.readAt source stop).outcome with
    | ok e =>
      rw [hread] at hrun
      cases hrun
    | error f =>
      rw [hread] at hrun
      cases hrun
      refine ⟨f.message, rfl, ?_⟩
      rw [Stage.messages, warnings_of_error hlead hread, hread]
      rfl

/-- What becomes of a literal that opens where a step begins: a token of its items, or an error
    behind their warnings. -/
theorem step_of_mark (hopen : charAt? source start = some quote.mark)
    {result : Option (Option (List Token))}
    (h : (Pass.pieces (Bytes.of source)).step.run ⟨start, log⟩ = (result, q)) :
    ∃ items stop, Items source quote (start + 1) items stop ∧ EndsItems source quote stop ∧
      ((∃ t, result = some (some [t]) ∧ t.lexeme.quote? = some quote ∧
          charAt? source stop = some quote.mark ∧
          q = ⟨stop + 1, log.append (items.flatMap Item.warnings)⟩) ∨
        (result = none ∧ ∃ error : Message, error.severity = .error ∧
          q.log = (log.append (items.flatMap Item.warnings)).append [error])) := by
  obtain ⟨contents, r, hliteral⟩ : ∃ contents r,
      (Pass.literal (Bytes.of source) quote).run ⟨start, log⟩ = (contents, r) := ⟨_, _, rfl⟩
  cases contents with
  | none =>
    cases h.symm.trans (literal_step_none hopen hliteral)
    obtain ⟨items, stop, hitems, hhalts⟩ := halts_of_literal hopen hliteral
    exact ⟨items, stop, hitems, hhalts.endsItems quote, .inr ⟨rfl, hhalts.log_eq⟩⟩
  | some contents =>
    obtain ⟨items, stop, hitems, hmark, hcontents, rfl⟩ := items_of_literal hopen hliteral
    refine ⟨items, stop, hitems, .inl hmark, ?_⟩
    cases quote with
    | string =>
      cases h.symm.trans (stringLiteral_step hopen hliteral)
      exact .inl ⟨_, rfl, rfl, hmark, rfl⟩
    | char =>
      have hstep := h.symm.trans (charLiteral_step hopen hliteral)
      match contents with
      | [] =>
        cases hstep
        exact .inr ⟨rfl, _, rfl, rfl⟩
      | [d] =>
        cases hstep
        exact .inl ⟨_, rfl, rfl, hmark, rfl⟩
      | _ :: second :: _ =>
        cases hstep
        exact .inr ⟨rfl, _, rfl, rfl⟩

/-- A piece that is no literal warns of nothing: a backslash in it begins no escape. -/
theorem warnings_of_noMark {c : Char} (h : ∀ quote : Quote, c ≠ quote.mark) (start : Nat)
    (cs : List Char) : (Piece.read start c cs).warnings = [] := by
  refine Piece.read_cases (motive := fun read => (read start cs).warnings = []) c ?_ ?_ ?_ ?_ ?_ ?_
    ?_ ?_ ?_
  · exact fun _ => rfl
  · exact fun _ => rfl
  · exact fun hmark => absurd hmark (h .char)
  · exact fun hmark => absurd hmark (h .string)
  · intro _
    unfold Piece.numeral Numeral.read
    dsimp only
    split <;> rfl
  · exact fun _ => rfl
  · exact fun _ => rfl
  · exact fun _ => rfl
  · rfl

theorem noMark_of_tailAt {c : Char} {cs : List Char} (htail : tailAt source start = ⟨0, c :: cs⟩)
    (h : ¬ ∃ quote : Quote, charAt? source start = some quote.mark) (quote : Quote) :
    c ≠ quote.mark := by
  rintro rfl
  exact h ⟨quote, charAt?_of_tailAt htail⟩

/-- **A step has the warnings that are due in its token**, in their order. -/
theorem listed_of_step (hp : (tailAt source p.offset).torn = 0)
    (h : (Pass.pieces (Bytes.of source)).step.run p = (some (some tokens), q)) :
    ∃ ws, q.log = p.log.append (ws.map Oversize.message) ∧
      Listed (fun w => ∃ t ∈ tokens, t.Holds source w) p.offset q.offset ws := by
  have hforward := ((Pass.pieces (Bytes.of source)).lt_of_items h).2
  by_cases hquote : ∃ quote : Quote, charAt? source p.offset = some quote.mark
  · obtain ⟨quote, hopen⟩ := hquote
    obtain ⟨items, stop, hitems, -, ⟨t, hresult, hkind, hmark, rfl⟩ | ⟨hresult, -⟩⟩ :=
      step_of_mark hopen h
    · cases hresult
      obtain ⟨ws, hws, hlisted⟩ := hitems.listed
      refine ⟨ws, by rw [hws], (hlisted.widen (Nat.le_succ _) (Nat.le_succ _)).of_iff fun w => ?_⟩
      rcases extent_of_step hp h with hnone | ⟨t', hone, hextent⟩
      · cases hnone
      · cases hone
        have hlast : t.extent.offset + t.extent.length - 1 = stop := by
          rw [hextent]
          show p.offset + (stop + 1 - p.offset) - 1 = stop
          have hlt : p.offset < stop + 1 := hforward
          omega
        have henclosed : t.Encloses source quote items := {
          kind := hkind
          opening := by rwa [hextent]
          between := by rwa [hlast, hextent]
          closing := by rwa [hlast] }
        simp only [List.mem_singleton, exists_eq_left]
        exact henclosed.holds_iff
    · cases hresult
  · -- no literal opens here: there are no warnings, and the token holds no items
    obtain ⟨c, cs, piece, htail, hread, rfl, rfl⟩ := read_of_step hp h
    have hwarnings := warnings_of_noMark (noMark_of_tailAt htail hquote) p.offset cs
    refine ⟨[], ?_, .nil ?_⟩
    · show p.log.append (Piece.read p.offset c cs).messages = _
      rw [Stage.messages, hwarnings, hread]
      rfl
    · rintro w ⟨t, ht, quote, items, henclosed, -⟩
      rcases extent_of_step hp h with hnone | ⟨t', hone, hextent⟩
      · rw [hnone] at ht
        cases ht
      · rw [hone] at ht
        cases List.mem_singleton.mp ht
        have hopening := henclosed.opening
        rw [hextent] at hopening
        exact hquote ⟨quote, hopening⟩

/-- **A step that halts has the warnings that are due ahead of its error.** -/
theorem listed_of_halt (hp : (tailAt source p.offset).torn = 0)
    (h : (Pass.pieces (Bytes.of source)).step.run p = (none, q)) :
    ∃ items stop ws, ∃ error : Message, q.log = p.log.append (ws.map Oversize.message ++ [error]) ∧
      error.severity = .error ∧ Unfinished source p.offset items ∧
      Listed (Oversize.Among source items) p.offset stop ws := by
  by_cases hquote : ∃ quote : Quote, charAt? source p.offset = some quote.mark
  · obtain ⟨quote, hopen⟩ := hquote
    obtain ⟨items, stop, hitems, hends, ⟨t, hresult, -⟩ | ⟨-, m, hm, hlog⟩⟩ := step_of_mark hopen h
    · cases hresult
    · obtain ⟨ws, hws, hlisted⟩ := hitems.listed
      exact ⟨items, stop, ws, m, by rw [hlog, hws, append_append], hm, .literal hopen hitems hends,
        hlisted.widen (Nat.le_succ _) (Nat.le_refl _)⟩
  · obtain ⟨c, cs, f, htail, hread, rfl⟩ := read_of_halt hp h
    have hwarnings := warnings_of_noMark (noMark_of_tailAt htail hquote) p.offset cs
    refine ⟨[], p.offset, [], f.message, ?_, rfl, .other fun quote hopen => hquote ⟨quote, hopen⟩,
      .nil fun _ ⟨_, _, hi, _⟩ => absurd hi List.not_mem_nil⟩
    show p.log.append (Piece.read p.offset c cs).messages = _
    rw [Stage.messages, hwarnings, hread]

/-- **Up to each of its points, a pass has the warnings that are due in its tokens.** -/
theorem Steps.Reaches.listed (h : (Pass.pieces (Bytes.of source)).Reaches p tokens q)
    (hp : (tailAt source p.offset).torn = 0) :
    ∃ ws, q.log = p.log.append (ws.map Oversize.message) ∧
      Listed (fun w => ∃ t ∈ tokens, t.Holds source w) p.offset q.offset ws := by
  induction h with
  | refl p =>
    exact ⟨[], (append_nil p.log).symm, .nil fun _ ⟨_, ht, _⟩ => absurd ht List.not_mem_nil⟩
  | @next p q r first rest hstep hrest ih =>
    have hforward := ((Pass.pieces (Bytes.of source)).lt_of_items hstep).2
    obtain ⟨ws, hlog, hlisted⟩ := listed_of_step hp hstep
    obtain ⟨ws', hlog', hlisted'⟩ := ih (torn_eq_zero_of_step hp hstep)
    refine ⟨ws ++ ws', ?_, (hlisted.append hlisted' (Nat.le_of_lt hforward) hrest.le).of_iff
      fun w => ?_⟩
    · rw [hlog', hlog, append_append, List.map_append]
    · simp only [List.mem_append, or_and_right, exists_or]

end Steps

/-! ## 4. Passes -/

section Passes

variable {source : List Char} {log : Log} {tokens : List Token} {w : Oversize} {ws : List Oversize}

/-- Two tokens of a pass that both take a byte are one. -/
theorem Token.Within.eq_of_mem {start stop offset : Nat} {t t' : Token}
    (h : Token.Within tokens start stop) (ht : t ∈ tokens) (ht' : t' ∈ tokens)
    (htakes : t.extent.offset ≤ offset ∧ offset < t.extent.offset + t.extent.length)
    (htakes' : t'.extent.offset ≤ offset ∧ offset < t'.extent.offset + t'.extent.length) :
    t = t' := by
  -- the first token ends ahead of all others; then among those
  have hapart := h.apart
  clear h
  induction hapart with
  | nil => cases ht
  | cons hfirst _ ih =>
    rcases List.mem_cons.mp ht with rfl | hrest
    · rcases List.mem_cons.mp ht' with rfl | hrest'
      · rfl
      · have hle := hfirst t' hrest'
        omega
    · rcases List.mem_cons.mp ht' with rfl | hrest'
      · have hle := hfirst t hrest
        omega
      · exact ih hrest hrest'

/-- What warnings are about: escapes of great numbers, each of them behind those ahead of it. -/
structure Oversize.Reported (source : List Char) (ws : List Oversize) : Prop where
  stand : ∀ w ∈ ws, w.StandsIn source
  ordered : ws.Pairwise fun w w' =>
    w.position.start < w'.position.start ∧ w.position.stop ≤ w'.position.start

/-- All warnings due in tokens, and each of them inside one literal. -/
structure Token.Warned (source : List Char) (tokens : List Token) (ws : List Oversize) : Prop where
  mem_iff : ∀ w, w ∈ ws ↔ ∃ t ∈ tokens, t.Holds source w
  inside : ∀ w ∈ ws, ∃! t, t ∈ tokens ∧ t.lexeme.quote?.isSome = true ∧
    t.extent.offset < w.position.start ∧ w.position.stop < t.extent.offset + t.extent.length

/-- All warnings due where a pass halts: in the tokens on its way, and in the literal that it has not
    come through. -/
def Pass.Warned (source : List Char) (log : Log) (ws : List Oversize) : Prop :=
  ∃ tokens here behind items,
    (Pass.pieces (Bytes.of source)).Reaches ⟨0, log⟩ tokens ⟨here, behind⟩ ∧
    Unfinished source here items ∧
    ∀ w, w ∈ ws ↔ (∃ t ∈ tokens, t.Holds source w) ∨ w.Among source items

theorem Oversize.Listed.reported {due : Oversize → Prop} {start stop : Nat}
    (h : Listed due start stop ws) (hdue : ∀ w, due w → w.StandsIn source) :
    Oversize.Reported source ws where
  stand := fun w hw => hdue w ((h.mem_iff w).mp hw)
  ordered := h.apart.imp_of_mem fun hw _ hle =>
    ⟨Nat.lt_of_lt_of_le (hdue _ ((h.mem_iff _).mp hw)).start_lt_stop hle, hle⟩

/-- A pass that comes to tokens has the warnings that are due in them. -/
theorem listed_of_tokens (h : (tokenize source log).2 = some tokens) :
    ∃ ws stop, (tokenize source log).1 = log.append (ws.map Oversize.message) ∧
      Token.Within tokens 0 stop ∧ Listed (fun w => ∃ t ∈ tokens, t.Holds source w) 0 stop ws := by
  obtain ⟨r, hrun⟩ : ∃ r, (Pass.tokens (Bytes.of source)).run ⟨0, log⟩ = (some tokens, r) :=
    ⟨_, Prod.ext h rfl⟩
  obtain ⟨q, hreach, hlast⟩ := Steps.reaches_of_all hrun
  have hend : r = q := by
    rcases step_cases (hreach.torn_eq_zero (torn_start source log)) with ⟨-, hstep⟩ | ⟨c, cs, -, hstep⟩
    · cases hlast.symm.trans hstep
      rfl
    · rw [hlast, Stage.runOn] at hstep
      split at hstep <;> cases hstep
  obtain ⟨ws, hlog, hlisted⟩ := hreach.listed (torn_start source log)
  refine ⟨ws, q.offset, ?_, hreach.within (torn_start source log), hlisted⟩
  rw [tokenize, hrun, hend]
  exact hlog

end Passes

/-- **A pass that comes to tokens reports a warning about each escape of a number above 255 in its
    char and string literals, and nothing else**; each of them lies inside one literal token. A pass
    that halts reports such warnings and one error behind them. -/
theorem warnings_of_pass (source : List Char) (log : Log) :
    (∀ tokens, (tokenize source log).2 = some tokens → ∃ ws,
      (tokenize source log).1.messages = log.messages ++ ws.map Oversize.message ∧
      Oversize.Reported source ws ∧ Token.Warned source tokens ws) ∧
    ((tokenize source log).2 = none → ∃ ws error,
      (tokenize source log).1.messages = log.messages ++ (ws.map Oversize.message ++ [error]) ∧
      error.severity = .error ∧ Oversize.Reported source ws ∧ Pass.Warned source log ws) := by
  refine ⟨fun tokens h => ?_, fun h => ?_⟩
  · obtain ⟨ws, stop, hlog, hwithin, hlisted⟩ := listed_of_tokens h
    refine ⟨ws, congrArg Log.messages hlog,
      hlisted.reported fun _ ⟨_, _, hholds⟩ => hholds.inside.2.1, hlisted.mem_iff, fun w hw => ?_⟩
    obtain ⟨t, ht, hholds⟩ := (hlisted.mem_iff w).mp hw
    obtain ⟨hquote, hstands, hbehind, hahead⟩ := hholds.inside
    have hlt := hstands.start_lt_stop
    refine ⟨t, ⟨ht, hquote, hbehind, hahead⟩, ?_⟩
    rintro t' ⟨ht', -, hbehind', hahead'⟩
    exact @Token.Within.eq_of_mem _ _ _ w.position.start _ _ hwithin ht' ht (by omega) (by omega)
  · obtain ⟨r, hrun⟩ : ∃ r, (Pass.tokens (Bytes.of source)).run ⟨0, log⟩ = (none, r) :=
      ⟨_, Prod.ext h rfl⟩
    obtain ⟨tokens, q, hreach, hhalt⟩ := Steps.reaches_of_all_none hrun
    obtain ⟨ws, hlog, hlisted⟩ := hreach.listed (torn_start source log)
    obtain ⟨items, stop, ws', error, hlog', herror, hitems, hlisted'⟩ :=
      listed_of_halt (hreach.torn_eq_zero (torn_start source log)) hhalt
    have hboth := hlisted.append (hlisted'.widen (Nat.le_refl _) (Nat.le_max_right q.offset stop))
      (Nat.zero_le _) (Nat.le_max_left ..)
    refine ⟨ws ++ ws', error, ?_, herror, hboth.reported ?_, tokens, q.offset, q.log, items, hreach,
      hitems, hboth.mem_iff⟩
    · rw [tokenize, hrun]
      show r.log.messages = _
      rw [hlog', hlog, append_append, Log.messages_append, List.map_append, List.append_assoc]
    · rintro w (⟨t, -, hholds⟩ | hamong)
      · exact hholds.inside.2.1
      · exact hamong.1

/-- Two escapes of great numbers in two literals; and a pass that halts behind two others, at the
    escape `\q`. -/
theorem warnings_of_pass_great_numbers :
    ((tokenize "\"\\x1FFq\"'\\400'".toList .empty).2 =
        some [⟨.stringLiteral (String.ofList ['ÿ', 'q']), 0, 8⟩, ⟨.charLiteral '\x90', 8, 6⟩] ∧
      ∃ ws, (tokenize "\"\\x1FFq\"'\\400'".toList .empty).1.messages =
          Log.empty.messages ++ ws.map Oversize.message ∧
        Oversize.Reported "\"\\x1FFq\"'\\400'".toList ws ∧
        Token.Warned "\"\\x1FFq\"'\\400'".toList
          [⟨.stringLiteral (String.ofList ['ÿ', 'q']), 0, 8⟩, ⟨.charLiteral '\x90', 8, 6⟩] ws) ∧
    (tokenize "\"\\256\\255\" '\\;\\x100\\q'".toList .empty).2 = none ∧
      ∃ ws error, (tokenize "\"\\256\\255\" '\\;\\x100\\q'".toList .empty).1.messages =
          Log.empty.messages ++ (ws.map Oversize.message ++ [error]) ∧
        error.severity = .error ∧ Oversize.Reported "\"\\256\\255\" '\\;\\x100\\q'".toList ws ∧
        Pass.Warned "\"\\256\\255\" '\\;\\x100\\q'".toList .empty ws := by
  have htokens : (tokenize "\"\\x1FFq\"'\\400'".toList .empty).2 =
      some [⟨.stringLiteral (String.ofList ['ÿ', 'q']), 0, 8⟩, ⟨.charLiteral '\x90', 8, 6⟩] := by
    decide +kernel
  have hhalts : (tokenize "\"\\256\\255\" '\\;\\x100\\q'".toList .empty).2 = none := by
    decide +kernel
  exact ⟨⟨htokens, (warnings_of_pass _ .empty).1 _ htokens⟩, hhalts,
    (warnings_of_pass _ .empty).2 hhalts⟩

end SourceScan
