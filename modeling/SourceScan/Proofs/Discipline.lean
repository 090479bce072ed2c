import SourceScan.Pass.Tokens

/-!
# Proofs/Discipline.lean -- what a pass reports

A part of a pass writes to a log that others have written to before it. This file shows what each
part leaves there.

* `Disciplined outcome added`: a call that halts has added exactly one error, behind warnings only;
  a call that does not has added nothing but warnings.
* `Orderly x`: from any offset, `x` adds the same messages behind those of any log, ends at the same
  offset with the same outcome, and is disciplined.
* `orderly_bind`, `Steps.orderly_all`: parts of orderly parts are orderly, and so is a step taken
  again and again.
* **`pass_orderly`**: numerals, escapes, literals and whole texts are gone over in this way.
-/

namespace SourceScan

open Text

variable {α β : Type}

/-! ## 1. Discipline -/

/-- What may have been reported by a call with an outcome, none if it halts. -/
structure Disciplined (outcome : Option α) (added : List Message) : Prop where
  halts_iff : outcome = none ↔ anyError added = true
  error_last : outcome = none → ∃ warnings error, added = warnings ++ [error] ∧
    error.severity = .error ∧ ∀ w ∈ warnings, w.severity = .warning
  only_warnings : ∀ a, outcome = some a → ∀ w ∈ added, w.severity = .warning

theorem anyError_append (as bs : List Message) :
    anyError (as ++ bs) = (anyError as || anyError bs) :=
  List.any_append

/-- Warnings end no scan. -/
theorem anyError_of_warnings {messages : List Message}
    (h : ∀ w ∈ messages, w.severity = .warning) : anyError messages = false := by
  rw [anyError, List.any_eq_false]
  intro w hw
  rw [h w hw]
  exact Bool.false_ne_true

theorem disciplined_some (a : α) {added : List Message}
    (h : ∀ w ∈ added, w.severity = .warning) : Disciplined (some a) added where
  halts_iff := by
    rw [anyError_of_warnings h]
    exact ⟨fun h => (nomatch h), fun h => (nomatch h)⟩
  error_last h := nomatch h
  only_warnings _ _ := h

theorem disciplined_none {warnings : List Message} {error : Message}
    (hw : ∀ w ∈ warnings, w.severity = .warning) (he : error.severity = .error) :
    Disciplined (none : Option α) (warnings ++ [error]) where
  halts_iff := by
    rw [anyError_append, anyError_of_warnings hw, Bool.false_or, anyError, List.any_cons, he]
    exact ⟨fun _ => rfl, fun _ => rfl⟩
  error_last _ := ⟨warnings, error, rfl, he, hw⟩
  only_warnings _ h := nomatch h

/-- Warnings ahead keep the discipline. -/
theorem Disciplined.behind {outcome : Option α} {warnings added : List Message}
    (h : Disciplined outcome added) (hw : ∀ w ∈ warnings, w.severity = .warning) :
    Disciplined outcome (warnings ++ added) := by
  cases outcome with
  | none =>
    obtain ⟨ws, e, rfl, he, hws⟩ := h.error_last rfl
    rw [← List.append_assoc]
    exact disciplined_none (List.forall_mem_append.mpr ⟨hw, hws⟩) he
  | some a => exact disciplined_some a (List.forall_mem_append.mpr ⟨hw, h.only_warnings a rfl⟩)

/-! ## 2. Orderly parts -/

/-- From an offset on, the part comes to one outcome and one offset and adds one list of messages,
    with discipline, whatever the log holds. -/
def OrderlyAt (x : Pass α) (offset : Nat) : Prop :=
  ∃ outcome stop added,
    (∀ log : Log, x.run ⟨offset, log⟩ = (outcome, ⟨stop, ⟨log.messages ++ added⟩⟩)) ∧
    Disciplined outcome added

/-- The part is orderly from every offset on. -/
def Orderly (x : Pass α) : Prop :=
  ∀ offset, OrderlyAt x offset

theorem orderlyAt_of_quiet {x : Pass α} {offset stop : Nat} {a : α}
    (h : ∀ log, x.run ⟨offset, log⟩ = (some a, ⟨stop, log⟩)) : OrderlyAt x offset := by
  refine ⟨some a, stop, [], fun log => ?_, disciplined_some a (fun w hw => nomatch hw)⟩
  rw [h, List.append_nil]

theorem orderly_pure (a : α) : Orderly (pure a : Pass α) :=
  fun _ => orderlyAt_of_quiet fun _ => rfl

theorem orderly_offset : Orderly Pass.offset :=
  fun _ => orderlyAt_of_quiet fun _ => rfl

theorem orderly_moveTo (target : Nat) : Orderly (Pass.moveTo target) :=
  fun _ => orderlyAt_of_quiet fun _ => rfl

theorem orderly_warn (w : Oversize) : Orderly (Pass.warn w) := fun offset =>
  ⟨some (), offset, [w.message], fun _ => rfl,
    disciplined_some () fun _ hw => List.mem_singleton.mp hw ▸ rfl⟩

theorem orderly_fatal (fault : Fault) (position : Position) :
    Orderly (Pass.fatal fault position : Pass α) := by
  intro offset
  have hnone : ∀ w ∈ ([] : List Message), w.severity = .warning := fun _ hw => nomatch hw
  exact ⟨none, offset, [⟨fault.text, .error, position⟩], fun _ => rfl, disciplined_none hnone rfl⟩

/-- **What goes on from an orderly part in an orderly way is orderly**: only what the first part can
    come to is asked of the second. -/
theorem orderlyAt_bind {x : Pass α} {next : α → Pass β} {offset : Nat} (hx : OrderlyAt x offset)
    (hnext : ∀ a stop log after, x.run ⟨offset, log⟩ = (some a, ⟨stop, after⟩) →
      OrderlyAt (next a) stop) : OrderlyAt (x >>= next) offset := by
  obtain ⟨outcome, stop, added, hrun, hd⟩ := hx
  cases outcome with
  | none =>
    obtain ⟨ws, e, rfl, he, hws⟩ := hd.error_last rfl
    exact ⟨none, stop, ws ++ [e], fun log => Pass.run_bind_none (hrun log) next,
      disciplined_none hws he⟩
  | some a =>
    obtain ⟨outcome, last, more, hmore, hd'⟩ := hnext a stop .empty _ (hrun .empty)
    refine ⟨outcome, last, added ++ more, fun log => ?_, hd'.behind (hd.only_warnings a rfl)⟩
    rw [Pass.run_bind_some (hrun log), hmore, List.append_assoc]

theorem orderly_bind {x : Pass α} {next : α → Pass β} (hx : Orderly x)
    (hnext : ∀ a, Orderly (next a)) : Orderly (x >>= next) :=
  fun offset => orderlyAt_bind (hx offset) fun a stop _ _ _ => hnext a stop

/-- **A step taken until it is the last is orderly if one step is**: each goes forward, so the
    induction is on what is left of the text. -/
theorem Steps.orderly_all {size : Nat} (s : Steps size α) (h : Orderly s.step) :
    Orderly s.all := by
  intro offset
  rw [all_eq]
  refine orderlyAt_bind (h offset) fun result stop log after hrun => ?_
  cases result with
  | none => exact orderly_pure [] stop
  | some items =>
    have hlt := s.lt_of_items hrun
    exact orderlyAt_bind (s.orderly_all h stop) fun rest last _ _ _ => orderly_pure _ last
termination_by offset => size - offset
decreasing_by
  simp only at hlt
  omega

/-! ## 3. The parts of a pass -/

theorem orderly_numeral (setting : Setting) (start : Nat) (text : List Char) :
    Orderly (Pass.numeral setting start text) := by
  unfold Pass.numeral
  split
  · exact orderly_pure _
  · exact orderly_fatal _ _

theorem orderly_numericEscape (b : Bytes) (start : Nat) (radix : Radix) (first : Nat) :
    Orderly (Pass.numericEscape b start radix first) := by
  refine orderly_bind (orderly_moveTo _) fun _ => ?_
  split
  · exact orderly_fatal _ _
  · refine orderly_bind (orderly_numeral _ _ _) fun value => ?_
    dsimp only
    split
    · exact orderly_bind (orderly_warn _) fun _ => orderly_pure _
    · exact orderly_pure _

theorem orderly_unknownEscape (b : Bytes) (start : Nat) :
    Orderly (Pass.unknownEscape b start) := by
  unfold Pass.unknownEscape
  split
  · exact orderly_fatal _ _
  · exact orderly_bind (orderly_moveTo _) fun _ => orderly_fatal _ _

theorem orderly_escape (b : Bytes) : Orderly (Pass.escape b) := by
  refine orderly_bind orderly_offset fun start => ?_
  refine orderly_bind (orderly_moveTo _) fun _ => ?_
  unfold Pass.escapeOf
  split
  · exact orderly_pure _
  · split
    · exact orderly_pure _
    · split
      · exact orderly_numericEscape _ _ _ _
      · split
        · exact orderly_numericEscape _ _ _ _
        · exact orderly_unknownEscape b start

theorem orderly_literalItem (b : Bytes) (quote : Quote) (start : Nat) :
    Orderly (Pass.literalItem b quote start) := by
  refine orderly_bind orderly_offset fun here => ?_
  unfold Pass.literalItemOf
  split
  · exact orderly_bind (orderly_moveTo _) fun _ => orderly_pure _
  · split
    · exact orderly_fatal _ _
    · split
      · exact orderly_bind (orderly_escape b) fun _ => orderly_pure _
      · exact orderly_bind (orderly_moveTo _) fun _ => orderly_pure _

theorem orderly_literal (b : Bytes) (quote : Quote) : Orderly (Pass.literal b quote) := by
  refine orderly_bind orderly_offset fun start => ?_
  refine orderly_bind (orderly_moveTo _) fun _ => ?_
  exact Steps.orderly_all _ (orderly_literalItem b quote start)

theorem orderly_charLiteral (b : Bytes) : Orderly (Pass.charLiteral b) := by
  refine orderly_bind orderly_offset fun start => ?_
  refine orderly_bind (orderly_literal b .char) fun contents => ?_
  refine orderly_bind orderly_offset fun stop => ?_
  split
  · exact orderly_fatal _ _
  · exact orderly_pure _
  · exact orderly_fatal _ _

theorem orderly_stringLiteral (b : Bytes) : Orderly (Pass.stringLiteral b) := by
  refine orderly_bind orderly_offset fun start => ?_
  refine orderly_bind (orderly_literal b .string) fun contents => ?_
  exact orderly_bind orderly_offset fun stop => orderly_pure _

theorem orderly_numeralToken (b : Bytes) : Orderly (Pass.numeralToken b) := by
  refine orderly_bind orderly_offset fun start => ?_
  refine orderly_bind (orderly_moveTo _) fun _ => ?_
  exact orderly_bind (orderly_numeral _ _ _) fun value => orderly_pure _

theorem orderly_wordToken (b : Bytes) (accept : Char → Bool) (lexeme : String → Lexeme) :
    Orderly (Pass.wordToken b accept lexeme) := by
  refine orderly_bind orderly_offset fun start => ?_
  exact orderly_bind (orderly_moveTo _) fun _ => orderly_pure _

theorem orderly_pieceOf (b : Bytes) (c : Char) : Orderly (Pass.pieceOf b c) := by
  unfold Pass.pieceOf
  split
  · exact orderly_bind orderly_offset fun _ => orderly_bind (orderly_moveTo _) fun _ => orderly_pure _
  split
  · exact orderly_bind orderly_offset fun _ => orderly_bind (orderly_moveTo _) fun _ => orderly_pure _
  split
  · exact orderly_charLiteral b
  split
  · exact orderly_stringLiteral b
  split
  · exact orderly_numeralToken b
  split
  · exact orderly_wordToken _ _ _
  split
  · exact orderly_wordToken _ _ _
  split
  · exact orderly_bind orderly_offset fun _ => orderly_bind (orderly_moveTo _) fun _ => orderly_pure _
  · exact orderly_bind orderly_offset fun _ => orderly_fatal _ _

theorem orderly_piece (b : Bytes) : Orderly (Pass.piece b) := by
  refine orderly_bind orderly_offset fun start => ?_
  split
  · exact orderly_pure _
  · exact orderly_bind (orderly_pieceOf b _) fun _ => orderly_pure _

theorem orderly_tokens (b : Bytes) : Orderly (Pass.tokens b) :=
  Steps.orderly_all _ (orderly_piece b)

/-- **Every part of a pass is orderly**, whatever the text, the log, and the offset it is called at,
    which need not be at a quotation mark or a backslash, nor between characters. -/
theorem pass_orderly :
    (∀ source : List Char, ∃ outcome added,
      (∀ log : Log, tokenize source log = (⟨log.messages ++ added⟩, outcome)) ∧
      Disciplined outcome added) ∧
    (∀ source quote, Orderly (Pass.literal (Bytes.of source) quote)) ∧
    (∀ source, Orderly (Pass.escape (Bytes.of source))) ∧
    (∀ setting start text, Orderly (Pass.numeral setting start text)) := by
  refine ⟨fun source => ?_, fun source => orderly_literal _, fun source => orderly_escape _,
    orderly_numeral⟩
  obtain ⟨outcome, stop, added, hrun, hd⟩ := orderly_tokens (Bytes.of source) 0
  refine ⟨outcome, added, fun log => ?_, hd⟩
  rw [tokenize, hrun]

end SourceScan
