import SourceScan.Pass.Traced
import SourceScan.Proofs.Emission
import SourceScan.Proofs.Literals
import SourceScan.Text.Checked

/-!
# Proofs/Offsets.lean -- offsets are what they are used as

A pass goes over its text byte by byte, and nothing stops it where an offset is not between two
characters: a difference is zero then, a cut is empty, a character is U+0000. None of this happens. A
step that begins at a boundary ends at one, since a byte of an ASCII class is a character of its own.
Only the step over a comment that the end of the text cuts short ends elsewhere, and no other comes
behind it.

* `OffsetUse.Exact`: what an offset is used as is what it is.
* `Traced.ExactAt`: a part of a pass makes exact uses only (`exactAt_bind`, and for all steps
  `TracedSteps.exactAt_all`). Escapes do (`exactAt_escape`), and so do the items of a literal
  (`exactAt_literalItem`) and pieces (`exactAt_piece`).
* `isBoundary_of_reaches`: a pass over a literal stands at a boundary at each of its steps.
* `boundary_or_behindOpenComment`: so does a pass over a text, unless it is behind a comment that no
  newline ends (`BehindOpenComment`).
* **Offsets are what a pass uses them as**: `offsets_exact`.
-/

namespace SourceScan

open Text Alphabet

variable {α β : Type} {source : List Char}

/-! ## 1. Exact uses -/

/-- The offsets are what they are used as: a difference is not below zero, a cut is between two
    boundaries and gives all the bytes there, and a character begins where one is looked at. -/
def OffsetUse.Exact (source : List Char) : OffsetUse → Prop
  | .difference a b => b ≤ a
  | .slice start stop text =>
    start ≤ stop ∧ IsBoundary source start ∧ IsBoundary source stop ∧
      encode text = ((encode source).drop start).take (stop - start)
  | .charAt offset c => charAt? source offset = some c

/-- From a point on, a part of a pass makes exact uses only. -/
def Traced.ExactAt (source : List Char) (x : Traced α) (p : Progress) : Prop :=
  ∀ u ∈ x.uses p, u.Exact source

section Exact

variable {p : Progress}

theorem exactAt_pure (a : α) : (pure a : Traced α).ExactAt source p :=
  fun _ hu => absurd hu List.not_mem_nil

theorem exactAt_quiet (x : Pass α) : (Traced.quiet x).ExactAt source p :=
  fun _ hu => absurd hu List.not_mem_nil

/-- **Two parts make exact uses if each does**, the second from where the first gets to. -/
theorem exactAt_bind {x : Traced α} {next : α → Traced β} (hx : x.ExactAt source p)
    (hnext : ∀ a q, x.pass.run p = (some a, q) → (next a).ExactAt source q) :
    (x >>= next).ExactAt source p := by
  intro u hu
  rcases List.mem_append.mp hu with hu | hu
  · exact hx u hu
  · split at hu
    · next a q hrun => exact hnext a q hrun u hu
    · cases hu

/-- What goes on from the offset goes on from where the pass stands. -/
theorem exactAt_offset_bind {next : Nat → Traced β} (h : (next p.offset).ExactAt source p) :
    (Traced.quiet Pass.offset >>= next).ExactAt source p :=
  exactAt_bind (exactAt_quiet _) fun a q hrun => by
    cases hrun
    exact h

theorem exactAt_moveTo_bind {target : Nat} {next : Unit → Traced β}
    (h : (next ()).ExactAt source ⟨target, p.log⟩) :
    (Traced.quiet (Pass.moveTo target) >>= next).ExactAt source p :=
  exactAt_bind (exactAt_quiet _) fun a q hrun => by
    cases hrun
    exact h

/-- An exact use leaves the pass where it stands. -/
theorem exactAt_use_bind {a : α} {u : OffsetUse} {next : α → Traced β} (hu : u.Exact source)
    (h : (next a).ExactAt source p) : (Traced.use a u >>= next).ExactAt source p := by
  refine exactAt_bind (fun v hv => ?_) fun a q hrun => ?_
  · rwa [List.mem_singleton.mp hv]
  · cases hrun
    exact h

theorem exactAt_difference_bind {a b : Nat} {next : Nat → Traced β} (hle : b ≤ a)
    (h : (next (a - b)).ExactAt source p) :
    (Traced.difference a b >>= next).ExactAt source p :=
  exactAt_use_bind hle h

theorem exactAt_slice_bind {start stop : Nat} {next : List Char → Traced β} (hle : start ≤ stop)
    (hstart : IsBoundary source start) (hstop : IsBoundary source stop)
    (h : (next ((Bytes.of source).slice start stop)).ExactAt source p) :
    (Traced.slice (Bytes.of source) start stop >>= next).ExactAt source p :=
  exactAt_use_bind ⟨hle, hstart, hstop, encode_slice hle hstart hstop⟩ h

theorem exactAt_charAt_bind {offset : Nat} {next : Char → Traced β}
    (hoffset : IsBoundary source offset) (hlt : offset < width source)
    (h : ∀ c, charAt? source offset = some c → (next c).ExactAt source p) :
    (Traced.charAt (Bytes.of source) offset >>= next).ExactAt source p := by
  obtain ⟨c, hc⟩ := exists_charAt?_of_isBoundary hoffset hlt
  have hchar : charAt? source offset = some ((Bytes.of source).charAt offset) := by
    rw [hc, (Bytes.of source).charAt_of_charAt? hc]
  exact exactAt_use_bind hchar (h _ hchar)

theorem exactAt_ite {c : Prop} [Decidable c] {x y : Traced α} (hx : c → x.ExactAt source p)
    (hy : ¬ c → y.ExactAt source p) : (if c then x else y).ExactAt source p := by
  split
  · next h => exact hx h
  · next h => exact hy h

/-- **All steps make exact uses if every step does that they lead to.** -/
theorem TracedSteps.exactAt_all {size : Nat} {t : TracedSteps size α}
    (h : ∀ items q, t.steps.Reaches p items q → t.step.ExactAt source q) :
    t.all.ExactAt source p := by
  intro u hu
  replace hu : u ∈ t.uses p := hu
  fun_induction TracedSteps.uses t p with
  | case1 p items q hstep ih =>
    rcases List.mem_append.mp hu with hu | hu
    · exact h [] p (.refl p) u hu
    · exact ih (fun items' r hreach => h (items ++ items') r (.next hstep hreach)) hu
  | case2 p => exact h [] p (.refl p) u hu

end Exact

/-! ## 2. Escapes -/

section Escapes

variable {start first : Nat} {radix : Radix} {p q : Progress}

/-- The digits of a numeric escape end at a boundary. -/
theorem exactAt_numericEscape (hstart : IsBoundary source start) (hle : start ≤ first)
    (hfirst : IsBoundary source first) :
    (Traced.numericEscape (Bytes.of source) start radix first).ExactAt source p := by
  have hstop : IsBoundary source ((Bytes.of source).runEnd radix.isDigit first) :=
    Bytes.isBoundary_runEnd (.of_lt fun _ => Radix.toNat_lt_of_isDigit) hfirst
  have hbehind : start ≤ (Bytes.of source).runEnd radix.isDigit first :=
    Nat.le_trans hle (Bytes.le_runEnd ..)
  refine exactAt_moveTo_bind (exactAt_ite (fun _ => ?_) fun _ => ?_)
  · exact exactAt_difference_bind hbehind (exactAt_difference_bind hbehind (exactAt_quiet _))
  · refine exactAt_slice_bind hbehind hstart hstop ?_
    refine exactAt_bind (exactAt_quiet _) fun value _ _ => ?_
    exact exactAt_ite
      (fun _ => exactAt_difference_bind hbehind
        (exactAt_bind (exactAt_quiet _) fun _ _ _ => exactAt_pure _))
      fun _ => exactAt_pure _

/-- Behind the backslash a whole character is looked at, if there is one. -/
theorem exactAt_unknownEscape (hnext : IsBoundary source (start + 1)) :
    (Traced.unknownEscape (Bytes.of source) start).ExactAt source p := by
  refine exactAt_ite (fun _ => exactAt_quiet _) fun hlt => ?_
  rw [Bytes.size_of, Nat.not_le] at hlt
  exact exactAt_charAt_bind hnext hlt fun _ _ => exactAt_moveTo_bind (exactAt_quiet _)

/-- A letter behind the backslash is one byte, so that digits may begin behind it. -/
theorem isBoundary_of_selector (hnext : IsBoundary source (start + 1))
    (h : Radix.ofEscapeLetter? ((Bytes.of source).peek (start + 1)) = some radix) :
    IsBoundary source (start + 2) := by
  have hlt : start + 1 < (Bytes.of source).size := by
    refine Bytes.lt_size_of_peek_ne fun hend => ?_
    rw [hend] at h
    cases h
  have hascii := Radix.toNat_lt_of_ofEscapeLetter? h
  have hbehind := (isBoundary_of_charAt? (Bytes.charAt?_of_peek hnext hlt hascii)).2
  rwa [utf8Size_of_lt hascii] at hbehind

/-- **An escape at a backslash makes exact uses of offsets.** -/
theorem exactAt_escape (hlead : charAt? source p.offset = some '\\') :
    (Traced.escape (Bytes.of source)).ExactAt source p := by
  obtain ⟨hstart, hnext⟩ := isBoundary_of_charAt? hlead
  refine exactAt_offset_bind (exactAt_moveTo_bind ?_)
  unfold Traced.escapeOf
  refine exactAt_ite (fun _ => exactAt_pure _) fun _ => ?_
  split
  · exact exactAt_pure _
  refine exactAt_ite (fun _ => exactAt_numericEscape hstart (Nat.le_succ _) hnext) fun _ => ?_
  split
  · next hradix =>
    exact exactAt_numericEscape hstart (Nat.le_add_right ..) (isBoundary_of_selector hnext hradix)
  · exact exactAt_unknownEscape hnext

/-- Behind an escape the text may be cut. -/
theorem isBoundary_of_escape (hlead : charAt? source p.offset = some '\\') {d : Option Char}
    (h : (Pass.escape (Bytes.of source)).run p = (some d, q)) : IsBoundary source q.offset := by
  rcases escape_or_halts hlead with ⟨i, hi, hescape⟩ | hhalts
  · have hrun := hescape.accepted p.log
    rw [hi, h] at hrun
    cases hrun
    exact hescape.isBoundary_stop
  · obtain ⟨r, hnone⟩ := hhalts p.log
    cases hnone.symm.trans h

/-- An escape that is none ends behind its backslash, and at most one byte behind the text. -/
theorem offset_of_escape_none (hlead : charAt? source p.offset = some '\\')
    (h : (Pass.escape (Bytes.of source)).run p = (none, q)) :
    p.offset < q.offset ∧ q.offset ≤ width source + 1 := by
  obtain ⟨cs, htail⟩ := exists_tailAt_of_charAt? hlead
  have hsize : width source = p.offset + width ('\\' :: cs) := by
    rw [← Bytes.size_of_cons (b := Bytes.of source) htail, Bytes.size_of]
  have hrun := (escape_follows (Bytes.of source) p.offset p.log).symm.trans h
  rw [Bytes.text_of, Escape.readAt_of_tailAt htail, Stage.runOn] at hrun
  cases hread : (Escape.read p.offset (some '\\') cs).outcome with
  | ok e =>
    rw [hread] at hrun
    cases hrun
  | error f =>
    rw [hread] at hrun
    cases hrun
    obtain ⟨hlt, hle⟩ := Escape.stop_of_read_error hread
    have hlead : '\\'.utf8Size = 1 := rfl
    rw [width_cons, hlead] at hsize
    exact ⟨hlt, show f.stop ≤ width source + 1 by omega⟩

end Escapes

/-! ## 3. Literals -/

section Literals

variable {quote : Quote} {start : Nat} {p q : Progress} {items : List Decoded}

/-- Where the byte is a backslash, the character is. -/
theorem charAt?_of_backslash (hp : IsBoundary source p.offset)
    (h : (Bytes.of source).peek p.offset = '\\') : charAt? source p.offset = some '\\' := by
  have hlt : p.offset < (Bytes.of source).size :=
    Bytes.lt_size_of_peek_ne (by rw [h]; decide)
  rw [← h]
  exact Bytes.charAt?_of_peek hp hlt (by rw [h]; decide)

/-- **An item of a literal makes exact uses of offsets**, from any boundary behind the opening mark. -/
theorem exactAt_literalItem (hp : IsBoundary source p.offset) (hstart : start ≤ p.offset) :
    (Traced.literalItem (Bytes.of source) quote start).ExactAt source p := by
  refine exactAt_offset_bind ?_
  refine exactAt_ite (fun _ => exactAt_moveTo_bind (exactAt_pure _)) fun _ => ?_
  refine exactAt_ite (fun _ => ?_) fun hend => ?_
  · exact exactAt_difference_bind hstart (exactAt_difference_bind hstart (exactAt_quiet _))
  refine exactAt_ite (fun hescape => ?_) fun _ => ?_
  · exact exactAt_bind (exactAt_escape (charAt?_of_backslash hp hescape)) fun _ _ _ => exactAt_pure _
  · have hlt := Bytes.lt_size_of_peek_ne hend
    rw [Bytes.size_of] at hlt
    exact exactAt_charAt_bind hp hlt fun _ _ => exactAt_moveTo_bind (exactAt_pure _)

/-- Behind an item the text may be cut. -/
theorem isBoundary_of_literalItem (hp : IsBoundary source p.offset)
    (h : (Pass.literalItem (Bytes.of source) quote start).run p = (some (some items), q)) :
    IsBoundary source q.offset := by
  obtain ⟨here, r, hhere, h⟩ := Pass.run_bind_eq_some h
  cases hhere
  unfold Pass.literalItemOf at h
  split at h
  · cases h
  split at h
  · cases h
  next hend =>
  split at h
  · next hescape =>
    obtain ⟨d, r, hrun, h⟩ := Pass.run_bind_eq_some h
    cases h
    exact isBoundary_of_escape (charAt?_of_backslash hp hescape) hrun
  · cases h
    have hlt := Bytes.lt_size_of_peek_ne hend
    rw [Bytes.size_of] at hlt
    obtain ⟨c, hc⟩ := exists_charAt?_of_isBoundary hp hlt
    rw [(Bytes.of source).charAt_of_charAt? hc]
    exact (isBoundary_of_charAt? hc).2

/-- **A pass over a literal stands at a boundary at each of its steps.** -/
theorem isBoundary_of_reaches
    (h : (Pass.literalItems (Bytes.of source) quote start).Reaches p items q)
    (hp : IsBoundary source p.offset) : IsBoundary source q.offset := by
  induction h with
  | refl => exact hp
  | next hstep _ ih => exact ih (isBoundary_of_literalItem hp hstep)

theorem exactAt_literal (hopen : charAt? source p.offset = some quote.mark) :
    (Traced.literal (Bytes.of source) quote).ExactAt source p := by
  refine exactAt_offset_bind (exactAt_moveTo_bind (TracedSteps.exactAt_all fun items q hreach => ?_))
  have hle : p.offset + 1 ≤ q.offset := hreach.le
  exact exactAt_literalItem (isBoundary_of_reaches hreach (isBoundary_behind_mark hopen))
    (Nat.le_of_succ_le hle)

end Literals

/-! ## 4. Pieces -/

section Pieces

variable {p q : Progress} {quote : Quote}

theorem exactAt_tokenOf_bind {lexeme : Lexeme} {start stop : Nat} {next : Token → Traced β}
    (hle : start ≤ stop) (hlt : start < width source)
    (h : ∀ t, (next t).ExactAt source p) :
    (Traced.tokenOf (Bytes.of source) lexeme start stop >>= next).ExactAt source p := by
  have hmin : start ≤ min stop (Bytes.of source).size :=
    Nat.le_min.mpr ⟨hle, Bytes.size_of source ▸ Nat.le_of_lt hlt⟩
  exact exactAt_bind (exactAt_difference_bind hmin (exactAt_pure _)) fun t q hrun => by
    cases hrun
    exact h _

theorem exactAt_charLiteral (hopen : charAt? source p.offset = some Quote.char.mark) :
    (Traced.charLiteral (Bytes.of source)).ExactAt source p := by
  have hlt := lt_width_of_charAt? hopen
  refine exactAt_offset_bind (exactAt_bind (exactAt_literal hopen) fun contents q hrun => ?_)
  have hle : p.offset ≤ q.offset := Nat.le_of_lt (Pass.lt_of_literal hrun)
  refine exactAt_offset_bind (exactAt_difference_bind hle ?_)
  match contents, hrun with
  | [], _ => exact exactAt_quiet _
  | [d], _ => exact exactAt_tokenOf_bind hle hlt fun _ => exactAt_pure _
  | first :: second :: others, hrun =>
    obtain ⟨items, stop, hitems, -, hcontents, -⟩ := items_of_literal hopen hrun
    have hmem : second.offset ∈ (Item.contents items).map Decoded.offset :=
      hcontents ▸ List.mem_map_of_mem (List.mem_cons_of_mem first List.mem_cons_self)
    have hbehind := (hitems.arranged.between second.offset hmem).1
    exact exactAt_difference_bind (Nat.le_of_lt hbehind) (exactAt_quiet _)

theorem exactAt_stringLiteral (hopen : charAt? source p.offset = some Quote.string.mark) :
    (Traced.stringLiteral (Bytes.of source)).ExactAt source p := by
  have hlt := lt_width_of_charAt? hopen
  refine exactAt_offset_bind (exactAt_bind (exactAt_literal hopen) fun contents q hrun => ?_)
  have hle : p.offset ≤ q.offset := Nat.le_of_lt (Pass.lt_of_literal hrun)
  exact exactAt_offset_bind (exactAt_tokenOf_bind hle hlt fun _ => exactAt_pure _)

/-- The run behind an ASCII character ends at a boundary. -/
theorem word_bounds {c : Char} {accept : Char → Bool} (hc : charAt? source p.offset = some c)
    (hascii : c.toNat < 128) (haccept : ∀ c, accept c = true → c.toNat < 128) :
    p.offset ≤ (Bytes.of source).runEnd accept (p.offset + 1) ∧
      IsBoundary source ((Bytes.of source).runEnd accept (p.offset + 1)) := by
  have hnext : IsBoundary source (p.offset + 1) :=
    utf8Size_of_lt hascii ▸ (isBoundary_of_charAt? hc).2
  exact ⟨Nat.le_of_succ_le (Bytes.le_runEnd ..), Bytes.isBoundary_runEnd (.of_lt haccept) hnext⟩

theorem exactAt_numeralToken {c : Char} (hc : charAt? source p.offset = some c)
    (hascii : c.toNat < 128) : (Traced.numeralToken (Bytes.of source)).ExactAt source p := by
  obtain ⟨hle, hstop⟩ := word_bounds hc hascii fun _ => toNat_lt_of_continuesNumeral
  refine exactAt_offset_bind (exactAt_moveTo_bind ?_)
  refine exactAt_slice_bind hle (isBoundary_of_charAt? hc).1 hstop ?_
  refine exactAt_bind (exactAt_quiet _) fun _ _ _ => ?_
  exact exactAt_tokenOf_bind hle (lt_width_of_charAt? hc) fun _ => exactAt_pure _

theorem exactAt_wordToken {c : Char} {accept : Char → Bool} {lexeme : String → Lexeme}
    (hc : charAt? source p.offset = some c) (hascii : c.toNat < 128)
    (haccept : ∀ c, accept c = true → c.toNat < 128) :
    (Traced.wordToken (Bytes.of source) accept lexeme).ExactAt source p := by
  obtain ⟨hle, hstop⟩ := word_bounds hc hascii haccept
  refine exactAt_offset_bind (exactAt_moveTo_bind ?_)
  refine exactAt_slice_bind hle (isBoundary_of_charAt? hc).1 hstop ?_
  exact exactAt_tokenOf_bind hle (lt_width_of_charAt? hc) fun _ => exactAt_pure _

/-- **A piece makes exact uses of offsets**, from any boundary, and at or past the end. -/
theorem exactAt_piece (hp : p.offset < width source → IsBoundary source p.offset) :
    (Traced.piece (Bytes.of source)).ExactAt source p := by
  refine exactAt_offset_bind (exactAt_ite (fun _ => exactAt_pure _) fun hsize => ?_)
  refine exactAt_bind ?_ fun _ _ _ => exactAt_pure _
  have hlt := Nat.lt_of_not_le hsize
  have hboundary : IsBoundary source p.offset := hp (Bytes.size_of source ▸ hlt)
  have hchar : ∀ {c : Char}, (Bytes.of source).peek p.offset = c → c.toNat < 128 →
      charAt? source p.offset = some c := by
    rintro c rfl hascii
    exact Bytes.charAt?_of_peek hboundary hlt hascii
  unfold Traced.pieceOf
  refine exactAt_ite (fun _ => exactAt_quiet _) fun _ => ?_
  refine exactAt_ite (fun _ => exactAt_quiet _) fun _ => ?_
  refine exactAt_ite (fun h => exactAt_charLiteral (hchar h (by decide))) fun _ => ?_
  refine exactAt_ite (fun h => exactAt_stringLiteral (hchar h (by decide))) fun _ => ?_
  refine exactAt_ite (fun h => ?_) fun _ => ?_
  · have hascii := toNat_lt_of_isDigit h
    exact exactAt_numeralToken (hchar rfl hascii) hascii
  refine exactAt_ite (fun h => ?_) fun _ => ?_
  · have hascii := toNat_lt_of_startsIdentifier h
    exact exactAt_wordToken (hchar rfl hascii) hascii fun _ => toNat_lt_of_continuesIdentifier
  refine exactAt_ite (fun h => ?_) fun _ => ?_
  · have hascii := toNat_lt_of_isOperator h
    exact exactAt_wordToken (hchar rfl hascii) hascii fun _ => toNat_lt_of_isOperator
  refine exactAt_ite (fun _ => exactAt_quiet _) fun _ => ?_
  refine exactAt_offset_bind (exactAt_charAt_bind hboundary ?_ fun _ _ => exactAt_quiet _)
  rwa [Bytes.size_of] at hlt

end Pieces

/-! ## 5. Passes -/

/-- A pass that has begun with a log stands one byte behind its text, and its last step was that over
    a comment which no newline ends. -/
structure BehindOpenComment (source : List Char) (log : Log) (p : Progress) : Prop where
  offset_eq : p.offset = width source + 1
  comment : ∃ front line tokens r, source = front ++ commentMark :: line ∧ '\n' ∉ line ∧
    r.offset = width front ∧ (Pass.pieces (Bytes.of source)).Reaches ⟨0, log⟩ tokens r ∧
      (Pass.piece (Bytes.of source)).run r = (some (some []), p)

section Passes

variable {log : Log} {p : Progress} {tokens : List Token}

/-- **A pass stands at a boundary at each of its steps**, or behind a comment that the end of the
    text cuts short. -/
theorem boundary_or_behindOpenComment
    (h : (Pass.pieces (Bytes.of source)).Reaches ⟨0, log⟩ tokens p) :
    IsBoundary source p.offset ∨ BehindOpenComment source log p := by
  rcases h.last with rfl | ⟨ahead, r, behind, hreach, hstep⟩
  · exact .inl (isBoundary_width [] source)
  obtain ⟨c, cs, piece, htail, hread, hbehind, rfl⟩ :=
    read_of_step (hreach.torn_eq_zero (torn_start source log)) hstep
  obtain ⟨front, hsource, hoffset⟩ := exists_append_of_tailAt htail (List.cons_ne_nil c cs)
  rcases Piece.inside_of_read hread with hinside | ⟨rfl, hline, rfl⟩
  · refine .inl (isBoundary_iff.mpr ⟨front ++ c :: cs.take piece.count, cs.drop piece.count, ?_, ?_⟩)
    · rw [List.append_assoc, List.cons_append, List.take_append_drop, hsource]
    · rw [hinside.stop_eq, hoffset, width_append]
  · obtain rfl : behind = [] := hbehind
    refine .inr ⟨?_, front, cs, ahead, r, hsource, hline, hoffset, hreach, hstep⟩
    rw [hsource, width_append, hoffset]

theorem exactAt_of_reaches (h : (Pass.pieces (Bytes.of source)).Reaches ⟨0, log⟩ tokens p) :
    (Traced.piece (Bytes.of source)).ExactAt source p :=
  exactAt_piece fun hlt => ⟨Nat.le_of_lt hlt, h.torn_eq_zero (torn_start source log)⟩

end Passes

/-- The parts on record are those of the pass over a text. -/
structure Traced.OfPass (source : List Char) : Prop where
  tokens : (Traced.tokens (Bytes.of source)).pass = Pass.tokens (Bytes.of source)
  piece : (Traced.piece (Bytes.of source)).pass = Pass.piece (Bytes.of source)
  literalItem : ∀ quote start, (Traced.literalItem (Bytes.of source) quote start).pass =
    Pass.literalItem (Bytes.of source) quote start
  escape : (Traced.escape (Bytes.of source)).pass = Pass.escape (Bytes.of source)

/-- From a point on, a step goes forward unless it is the last or halts, and makes exact uses of
    offsets, whatever becomes of it. -/
structure ExactStep (source : List Char) (step : Traced (Option (List α))) (p : Progress) : Prop where
  forward : ∀ items q, step.pass.run p = (some (some items), q) → p.offset < q.offset
  exact : step.ExactAt source p

/-- From a point on, an escape makes exact uses of offsets. It goes forward, to a boundary if it is
    decoded, and if it halts to at most one byte behind the text. -/
structure ExactEscape (source : List Char) (p : Progress) : Prop where
  exact : (Traced.escape (Bytes.of source)).ExactAt source p
  decoded : ∀ d q, (Pass.escape (Bytes.of source)).run p = (some d, q) →
    p.offset < q.offset ∧ IsBoundary source q.offset
  halted : ∀ q, (Pass.escape (Bytes.of source)).run p = (none, q) →
    p.offset < q.offset ∧ q.offset ≤ width source + 1

/-- **Offsets are what a pass uses them as.** A pass over a text stands at a boundary at each of its
    steps, or one byte behind the text after a comment that no newline ends. Every step but the last
    goes forward, no difference is below zero, every cut gives the bytes between its offsets, and
    U+0000 is the character at an offset only where the text has it. It is the same in a literal,
    where each step begins at a boundary, and in an escape, which on its failure too goes forward and
    at most one byte behind the text. -/
theorem offsets_exact (source : List Char) (log : Log) :
    Traced.OfPass source ∧
    (Traced.tokens (Bytes.of source)).ExactAt source ⟨0, log⟩ ∧
    (∀ tokens p, (Pass.pieces (Bytes.of source)).Reaches ⟨0, log⟩ tokens p →
      (IsBoundary source p.offset ∨ BehindOpenComment source log p) ∧
        ExactStep source (Traced.piece (Bytes.of source)) p) ∧
    (∀ quote start, charAt? source start = some quote.mark → ∀ contents p,
      (Pass.literalItems (Bytes.of source) quote start).Reaches ⟨start + 1, log⟩ contents p →
        IsBoundary source p.offset ∧
          ExactStep source (Traced.literalItem (Bytes.of source) quote start) p) ∧
    ∀ start, charAt? source start = some '\\' → ExactEscape source ⟨start, log⟩ := by
  refine ⟨⟨Traced.pass_tokens _, Traced.pass_piece, Traced.pass_literalItem, Traced.pass_escape _⟩,
    ?_, fun tokens p hreach => ?_, fun quote start hopen contents p hreach => ?_,
    fun start hlead => ?_⟩
  · exact TracedSteps.exactAt_all fun _ _ hreach => exactAt_of_reaches hreach
  · refine ⟨boundary_or_behindOpenComment hreach, fun items q hrun => ?_, exactAt_of_reaches hreach⟩
    rw [Traced.pass_piece] at hrun
    exact ((Pass.pieces (Bytes.of source)).lt_of_items hrun).2
  · have hboundary := isBoundary_of_reaches hreach (isBoundary_behind_mark hopen)
    refine ⟨hboundary, fun items q hrun => ?_,
      exactAt_literalItem hboundary (Nat.le_of_succ_le hreach.le)⟩
    rw [Traced.pass_literalItem] at hrun
    exact ((Pass.literalItems (Bytes.of source) quote start).lt_of_items hrun).2
  · refine ⟨exactAt_escape hlead, fun d q hrun => ⟨?_, isBoundary_of_escape hlead hrun⟩,
      fun q hrun => offset_of_escape_none hlead hrun⟩
    exact Nat.lt_of_succ_lt (Pass.lt_of_escape hrun)

/-- In `"é\65"#` a step over the literal makes three uses of offsets, a step over the items of the
    literal leads to its escape, and the comment leads to one byte behind the text. -/
theorem offsets_exact_openComment :
    (Traced.piece (Bytes.of ['"', 'é', '\\', '6', '5', '"', '#'])).uses ⟨0, .empty⟩ =
        [.charAt 1 'é', .slice 3 6 ['\\', '6', '5'], .difference 7 0] ∧
      (∀ u ∈ [.charAt 1 'é', .slice 3 6 ['\\', '6', '5'], .difference 7 0],
        OffsetUse.Exact ['"', 'é', '\\', '6', '5', '"', '#'] u) ∧
      BehindOpenComment ['"', 'é', '\\', '6', '5', '"', '#'] .empty ⟨9, .empty⟩ ∧
      IsBoundary ['"', 'é', '\\', '6', '5', '"', '#'] 3 ∧
      ExactEscape ['"', 'é', '\\', '6', '5', '"', '#'] ⟨3, .empty⟩ := by
  have hliteral : (Pass.pieces (Bytes.of ['"', 'é', '\\', '6', '5', '"', '#'])).step.run
      ⟨0, .empty⟩ = (some (some [⟨.stringLiteral "éA", 0, 7⟩]), ⟨7, .empty⟩) := by decide +kernel
  have hcomment : (Pass.pieces (Bytes.of ['"', 'é', '\\', '6', '5', '"', '#'])).step.run
      ⟨7, .empty⟩ = (some (some []), ⟨9, .empty⟩) := by decide +kernel
  have hitem : (Pass.literalItems (Bytes.of ['"', 'é', '\\', '6', '5', '"', '#']) .string 0).step.run
      ⟨1, .empty⟩ = (some (some [⟨'é', 1⟩]), ⟨3, .empty⟩) := by decide +kernel
  have huses : (Traced.piece (Bytes.of ['"', 'é', '\\', '6', '5', '"', '#'])).uses ⟨0, .empty⟩ =
      [.charAt 1 'é', .slice 3 6 ['\\', '6', '5'], .difference 7 0] := by decide +kernel
  obtain ⟨-, -, hpieces, hitems, hescapes⟩ :=
    offsets_exact ['"', 'é', '\\', '6', '5', '"', '#'] .empty
  obtain ⟨-, hstep⟩ := hpieces [] _ (.refl _)
  obtain ⟨hhead, -⟩ := hpieces _ _ (.next hliteral (.single hcomment))
  obtain ⟨hboundary, -⟩ := hitems .string 0 (by decide) _ _ (.single hitem)
  refine ⟨huses, fun u hu => hstep.exact u (huses ▸ hu), hhead.resolve_left (by decide), hboundary,
    hescapes 3 (by decide)⟩

end SourceScan
