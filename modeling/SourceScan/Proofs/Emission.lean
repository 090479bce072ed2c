import SourceScan.Proofs.Decomposition

/-!
# Proofs/Emission.lean -- what a pass emits on its way

A pass takes its steps one behind the other, and each of them but the last yields the token of a
piece, or nothing. What it has yielded stays, also if a later step halts.

* `Steps.Reaches`: steps from one point of a pass to another, with what they yield.
* `Steps.Reaches.comparable`: a pass has one way to go: of two points that it reaches from the same
  point, one is reached from the other.
* `Steps.exists_reaches`: all steps are those that lead to the last one, or to one that halts.
* `Steps.Reaches.torn_eq_zero`: a pass stands between characters at each of its steps.
* `literal_step_none`, `charLiteral_step`, `stringLiteral_step`: what a step over a literal comes to.
* `Token.Within`, `Steps.Reaches.within`: tokens stand behind each other, in what the steps go over.
* `Pass.Emits`: a token that a pass over a text yields on its way, whatever becomes of the pass.
-/

namespace SourceScan

open Text

/-! ## 1. The way of a pass -/

namespace Steps

section Steps

variable {size : Nat} {α : Type} {s : Steps size α} {p q q' r : Progress} {items items' : List α}

/-- Steps from one point to another, none of them the last, and the items they yield. -/
inductive Reaches (s : Steps size α) : Progress → List α → Progress → Prop
  | refl (p : Progress) : Reaches s p [] p
  | next {p q r : Progress} {first rest : List α} (hstep : s.step.run p = (some (some first), q))
      (hrest : Reaches s q rest r) : Reaches s p (first ++ rest) r

namespace Reaches

theorem single (h : s.step.run p = (some (some items), q)) : s.Reaches p items q :=
  List.append_nil items ▸ .next h (.refl q)

theorem trans (h : s.Reaches p items q) (h' : s.Reaches q items' r) :
    s.Reaches p (items ++ items') r := by
  induction h with
  | refl => exact h'
  | next hstep _ ih =>
    rw [List.append_assoc]
    exact .next hstep (ih h')

theorem le (h : s.Reaches p items q) : p.offset ≤ q.offset := by
  induction h with
  | refl => exact Nat.le_refl _
  | next hstep _ ih => exact Nat.le_trans (Nat.le_of_lt (s.lt_of_items hstep).2) ih

/-- Steps that lead somewhere are none at all, or end with one. -/
theorem last (h : s.Reaches p items q) :
    q = p ∨ ∃ ahead r behind, s.Reaches p ahead r ∧ s.step.run r = (some (some behind), q) := by
  induction h with
  | refl p => exact .inl rfl
  | @next p q r first rest hstep _ ih =>
    rcases ih with rfl | ⟨ahead, t, behind, hreach, hlast⟩
    · exact .inr ⟨[], p, first, .refl p, hstep⟩
    · exact .inr ⟨first ++ ahead, t, behind, .next hstep hreach, hlast⟩

/-- **A pass has one way to go.** -/
theorem comparable (h : s.Reaches p items q) (h' : s.Reaches p items' q') :
    (∃ more, s.Reaches q more q' ∧ items' = items ++ more) ∨
      ∃ more, s.Reaches q' more q ∧ items = items' ++ more := by
  induction h generalizing items' with
  | refl p => exact .inl ⟨items', h', rfl⟩
  | @next p q r first rest hstep hrest ih =>
    cases h' with
    | refl => exact .inr ⟨first ++ rest, .next hstep hrest, rfl⟩
    | next hstep' hrest' =>
      rw [hstep] at hstep'
      cases hstep'
      refine (ih hrest').imp ?_ ?_ <;>
      · rintro ⟨more, hmore, rfl⟩
        exact ⟨more, hmore, (List.append_assoc ..).symm⟩

/-- All steps from a point are those up to another and all steps from there. -/
theorem run_all (h : s.Reaches p items q) :
    s.all.run p = (s.all >>= fun rest => pure (items ++ rest)).run q := by
  induction h with
  | refl p =>
    rw [Pass.run_bind]
    cases s.all.run p with
    | mk result r => cases result <;> rfl
  | @next p q r first rest hstep _ ih =>
    rw [run_all_items hstep, Pass.run_bind, ih, Pass.run_bind, Pass.run_bind]
    cases s.all.run r with
    | mk result t =>
      cases result with
      | none => rfl
      | some last => exact congrArg (fun items => (some items, t)) (List.append_assoc ..).symm

end Reaches

/-- **Steps lead to the last one, or to one that halts.** -/
theorem exists_reaches (s : Steps size α) (p : Progress) : ∃ items q, s.Reaches p items q ∧
    ((∃ r, s.step.run q = (some none, r)) ∨ ∃ r, s.step.run q = (none, r)) := by
  -- a step that is not the last goes forward inside the text
  induction hleft : size - p.offset using Nat.strongRecOn generalizing p with
  | ind left ih =>
    obtain ⟨result, q, hstep⟩ : ∃ result q, s.step.run p = (result, q) := ⟨_, _, rfl⟩
    match result with
    | none => exact ⟨[], p, .refl p, .inr ⟨q, hstep⟩⟩
    | some none => exact ⟨[], p, .refl p, .inl ⟨q, hstep⟩⟩
    | some (some first) =>
      have hforward := s.lt_of_items hstep
      obtain ⟨rest, r, hrest, hend⟩ := ih (size - q.offset) (by omega) q rfl
      exact ⟨first ++ rest, r, .next hstep hrest, hend⟩

/-- Steps that come to an end have led to the last one. -/
theorem reaches_of_all (h : s.all.run p = (some items, r)) :
    ∃ q, s.Reaches p items q ∧ s.step.run q = (some none, r) := by
  obtain ⟨items', q, hreach, ⟨r', hlast⟩ | ⟨r', hhalts⟩⟩ := s.exists_reaches p
  · rw [hreach.run_all, Pass.run_bind_some (run_all_last hlast), List.append_nil] at h
    cases h
    exact ⟨q, hreach, hlast⟩
  · rw [hreach.run_all, Pass.run_bind_none (run_all_none hhalts)] at h
    cases h

/-- Steps that halt have led to the one that does. -/
theorem reaches_of_all_none (h : s.all.run p = (none, r)) :
    ∃ items q, s.Reaches p items q ∧ s.step.run q = (none, r) := by
  obtain ⟨items, q, hreach, ⟨r', hlast⟩ | ⟨r', hhalts⟩⟩ := s.exists_reaches p
  · rw [hreach.run_all, Pass.run_bind_some (run_all_last hlast)] at h
    cases h
  · rw [hreach.run_all, Pass.run_bind_none (run_all_none hhalts)] at h
    cases h
    exact ⟨items, q, hreach, hhalts⟩

end Steps

end Steps

/-! ## 2. Steps over a text -/

section Texts

variable {source : List Char} {p q : Progress} {tokens : List Token} {t : Token}

/-- A step over a text reads the piece that stands there. -/
theorem piece_follows {start : Nat} {c : Char} {cs : List Char}
    (h : tailAt source start = ⟨0, c :: cs⟩) :
    Follows (Pass.pieces (Bytes.of source)).step start (Piece.read start c cs)
      (fun piece => some piece.token.toList) Piece.stop := by
  intro log
  rw [piece_run h log]
  exact follows_pure_bind (pieceOf_follows h) _ log

/-- **What a step over a text can be**, from a place between characters: the last one, at the end, or
    the reading of a piece. -/
theorem step_cases (hp : (tailAt source p.offset).torn = 0) :
    (tailAt source p.offset = ⟨0, []⟩ ∧
      (Pass.pieces (Bytes.of source)).step.run p = (some none, p)) ∨
    ∃ c cs, tailAt source p.offset = ⟨0, c :: cs⟩ ∧
      (Pass.pieces (Bytes.of source)).step.run p =
        (Piece.read p.offset c cs).runOn (fun piece => some piece.token.toList) Piece.stop p.log := by
  obtain ⟨torn, rest, htail⟩ : ∃ torn rest, tailAt source p.offset = ⟨torn, rest⟩ := ⟨_, _, rfl⟩
  obtain rfl : torn = 0 := by rw [← hp, htail]
  cases rest with
  | nil => exact .inl ⟨htail, piece_run_last htail p.log⟩
  | cons c cs => exact .inr ⟨c, cs, htail, piece_follows htail p.log⟩

/-- A step that is not the last has read a piece. -/
theorem read_of_step (hp : (tailAt source p.offset).torn = 0)
    (h : (Pass.pieces (Bytes.of source)).step.run p = (some (some tokens), q)) :
    ∃ c cs piece, tailAt source p.offset = ⟨0, c :: cs⟩ ∧
      (Piece.read p.offset c cs).outcome = .ok piece ∧ tokens = piece.token.toList ∧
        q = ⟨piece.stop, p.log.append (Piece.read p.offset c cs).messages⟩ := by
  rcases step_cases hp with ⟨-, hlast⟩ | ⟨c, cs, htail, hrun⟩
  · cases hlast.symm.trans h
  · rw [hrun] at h
    cases hread : (Piece.read p.offset c cs).outcome with
    | error f =>
      rw [Stage.runOn, hread] at h
      cases h
    | ok piece =>
      rw [Stage.runOn, hread] at h
      cases h
      exact ⟨c, cs, piece, htail, hread, rfl, rfl⟩

/-- A step that halts has not read one. -/
theorem read_of_halt (hp : (tailAt source p.offset).torn = 0)
    (h : (Pass.pieces (Bytes.of source)).step.run p = (none, q)) :
    ∃ c cs failure, tailAt source p.offset = ⟨0, c :: cs⟩ ∧
      (Piece.read p.offset c cs).outcome = .error failure ∧
        q = ⟨failure.stop, p.log.append (Piece.read p.offset c cs).messages⟩ := by
  rcases step_cases hp with ⟨-, hlast⟩ | ⟨c, cs, htail, hrun⟩
  · cases hlast.symm.trans h
  · rw [hrun] at h
    cases hread : (Piece.read p.offset c cs).outcome with
    | ok piece =>
      rw [Stage.runOn, hread] at h
      cases h
    | error f =>
      rw [Stage.runOn, hread] at h
      cases h
      exact ⟨c, cs, f, htail, hread, rfl⟩

/-- Behind a piece the text may be cut. -/
theorem torn_eq_zero_of_step (hp : (tailAt source p.offset).torn = 0)
    (h : (Pass.pieces (Bytes.of source)).step.run p = (some (some tokens), q)) :
    (tailAt source q.offset).torn = 0 := by
  obtain ⟨c, cs, piece, htail, hread, -, rfl⟩ := read_of_step hp h
  exact congrArg Tail.torn (tailAt_stop_of_read (b := Bytes.of source) htail hread)

/-- **A pass that begins between characters stands between characters at each of its steps.** -/
theorem Steps.Reaches.torn_eq_zero (h : (Pass.pieces (Bytes.of source)).Reaches p tokens q)
    (hp : (tailAt source p.offset).torn = 0) : (tailAt source q.offset).torn = 0 := by
  induction h with
  | refl => exact hp
  | next hstep _ ih => exact ih (torn_eq_zero_of_step hp hstep)

/-- A token takes what its step goes over. -/
theorem extent_of_step (hp : (tailAt source p.offset).torn = 0)
    (h : (Pass.pieces (Bytes.of source)).step.run p = (some (some tokens), q)) :
    tokens = [] ∨ ∃ t, tokens = [t] ∧ t.extent = ⟨p.offset, q.offset - p.offset⟩ := by
  obtain ⟨c, cs, piece, -, hread, rfl, rfl⟩ := read_of_step hp h
  cases spells_of_piece hread with
  | blanks htoken => exact .inl (by rw [htoken]; rfl)
  | openComment htoken => exact .inl (by rw [htoken]; rfl)
  | lexeme lexeme _ htoken => exact .inr ⟨_, by rw [htoken]; rfl, rfl⟩

end Texts

/-! ## 3. Steps over literals -/

section Literals

variable {source : List Char} {quote : Quote} {log behind : Log} {start stop : Nat}
  {contents : List Decoded}

/-- Where the pass over a literal halts, the step over it does. -/
theorem literal_step_none (hopen : charAt? source start = some quote.mark) {q : Progress}
    (h : (Pass.literal (Bytes.of source) quote).run ⟨start, log⟩ = (none, q)) :
    (Pass.pieces (Bytes.of source)).step.run ⟨start, log⟩ = (none, q) := by
  obtain ⟨cs, htail⟩ := exists_tailAt_of_charAt? hopen
  rw [piece_run htail]
  refine Pass.run_bind_none ?_ _
  cases quote with
  | char => exact Pass.run_bind_none h _
  | string => exact Pass.run_bind_none h _

/-- **A step over a closed char literal yields a token if one character has been decoded**, and halts
    if none has or more than one. -/
theorem charLiteral_step (hopen : charAt? source start = some Quote.char.mark) :
    (Pass.literal (Bytes.of source) .char).run ⟨start, log⟩ = (some contents, ⟨stop, behind⟩) →
    (Pass.pieces (Bytes.of source)).step.run ⟨start, log⟩ =
      match contents with
      | [] => (none, ⟨stop, behind.fail "char literal cannot be empty"
          (.clamped start (stop - start) 1)⟩)
      | [d] => (some (some [Pass.tokenOf (Bytes.of source) (.charLiteral d.char) start stop]),
          ⟨stop, behind⟩)
      | _ :: second :: _ => (none, ⟨stop, behind.fail "too many characters in char literal"
          (.clamped start (stop - start) (second.offset - start))⟩) := by
  intro hliteral
  obtain ⟨cs, htail⟩ := exists_tailAt_of_charAt? hopen
  have hpiece : Pass.pieceOf (Bytes.of source) Quote.char.mark = Pass.charLiteral (Bytes.of source) :=
    rfl
  rw [piece_run htail, hpiece]
  unfold Pass.charLiteral
  rw [Pass.run_bind, Pass.run_bind_some (Pass.run_offset _)]
  dsimp only
  rw [Pass.run_bind_some hliteral, Pass.run_bind_some (Pass.run_offset _)]
  match contents with
  | [] => rfl
  | [d] => rfl
  | _ :: second :: _ => rfl

/-- A step over a closed string literal yields a token, whatever has been decoded. -/
theorem stringLiteral_step (hopen : charAt? source start = some Quote.string.mark)
    (hliteral : (Pass.literal (Bytes.of source) .string).run ⟨start, log⟩ =
      (some contents, ⟨stop, behind⟩)) :
    (Pass.pieces (Bytes.of source)).step.run ⟨start, log⟩ =
      (some (some [Pass.tokenOf (Bytes.of source)
        (.stringLiteral (String.ofList (contents.map Decoded.char))) start stop]), ⟨stop, behind⟩) := by
  obtain ⟨cs, htail⟩ := exists_tailAt_of_charAt? hopen
  have hpiece : Pass.pieceOf (Bytes.of source) Quote.string.mark =
      Pass.stringLiteral (Bytes.of source) := rfl
  rw [piece_run htail, hpiece]
  unfold Pass.stringLiteral
  rw [Pass.run_bind, Pass.run_bind_some (Pass.run_offset _)]
  dsimp only
  rw [Pass.run_bind_some hliteral, Pass.run_bind_some (Pass.run_offset _)]
  rfl

end Literals

section Texts

variable {source : List Char} {p q : Progress} {tokens : List Token} {t : Token}

/-! ## 4. The tokens on the way -/

/-- Tokens between two offsets, each of them something and behind those ahead of it. -/
structure Token.Within (tokens : List Token) (start stop : Nat) : Prop where
  bounds : ∀ t ∈ tokens, start ≤ t.extent.offset ∧ 0 < t.extent.length ∧
    t.extent.offset + t.extent.length ≤ stop
  apart : tokens.Pairwise fun t t' => t.extent.offset + t.extent.length ≤ t'.extent.offset

/-- **The tokens that steps yield stand in what the steps go over**, in their order. -/
theorem Steps.Reaches.within (h : (Pass.pieces (Bytes.of source)).Reaches p tokens q)
    (hp : (tailAt source p.offset).torn = 0) : Token.Within tokens p.offset q.offset := by
  induction h with
  | refl => exact ⟨fun _ ht => absurd ht List.not_mem_nil, .nil⟩
  | @next p q r first rest hstep hrest ih =>
    have hforward := ((Pass.pieces (Bytes.of source)).lt_of_items hstep).2
    have hle := hrest.le
    obtain ⟨hbounds, hapart⟩ := ih (torn_eq_zero_of_step hp hstep)
    have hbehind : ∀ t ∈ rest, p.offset ≤ t.extent.offset ∧ 0 < t.extent.length ∧
        t.extent.offset + t.extent.length ≤ r.offset := fun t ht =>
      ⟨Nat.le_trans (Nat.le_of_lt hforward) (hbounds t ht).1, (hbounds t ht).2⟩
    rcases extent_of_step hp hstep with rfl | ⟨t, rfl, hextent⟩
    · exact ⟨hbehind, hapart⟩
    · have hstop : t.extent.offset + t.extent.length = q.offset := by
        rw [hextent]
        exact Nat.add_sub_cancel' (Nat.le_of_lt hforward)
      have hstart : t.extent.offset = p.offset := congrArg Extent.offset hextent
      refine ⟨fun t' ht' => ?_, List.pairwise_cons.mpr ⟨fun t' ht' => ?_, hapart⟩⟩
      · rcases List.mem_cons.mp ht' with rfl | ht'
        · omega
        · exact hbehind t' ht'
      · rw [hstop]
        exact (hbounds t' ht').1

/-- A pass over a text begins between characters. -/
theorem torn_start (source : List Char) (log : Log) :
    (tailAt source (⟨0, log⟩ : Progress).offset).torn = 0 :=
  congrArg Tail.torn (tailAt_zero source)

/-- A token that a pass over a text yields on its way. -/
def Pass.Emits (source : List Char) (log : Log) (t : Token) : Prop :=
  ∃ tokens q, (Pass.pieces (Bytes.of source)).Reaches ⟨0, log⟩ tokens q ∧ t ∈ tokens

/-- **A token that begins where a step does is emitted if and only if that step yields it.** -/
theorem emits_iff {log : Log} (hreach : (Pass.pieces (Bytes.of source)).Reaches ⟨0, log⟩ tokens p)
    (ht : t.extent.offset = p.offset) :
    Pass.Emits source log t ↔
      ∃ q, (Pass.pieces (Bytes.of source)).step.run p = (some (some [t]), q) := by
  have hp := hreach.torn_eq_zero (torn_start source log)
  have hahead : t ∉ tokens := by
    intro hmem
    have hbounds := (hreach.within (torn_start source log)).bounds t hmem
    omega
  constructor
  · rintro ⟨tokens', q, hreach', hmem⟩
    rcases hreach.comparable hreach' with ⟨more, hmore, rfl⟩ | ⟨more, hmore, rfl⟩
    · have hmem := (List.mem_append.mp hmem).resolve_left hahead
      cases hmore with
      | refl => cases hmem
      | @next _ q _ first rest hstep hrest =>
        have hforward := ((Pass.pieces (Bytes.of source)).lt_of_items hstep).2
        have hbehind : t ∉ rest := by
          intro hmem
          have hbounds := (hrest.within (torn_eq_zero_of_step hp hstep)).bounds t hmem
          omega
        have hfirst := (List.mem_append.mp hmem).resolve_right hbehind
        rcases extent_of_step hp hstep with rfl | ⟨t', rfl, -⟩
        · cases hfirst
        · cases List.mem_singleton.mp hfirst
          exact ⟨q, hstep⟩
    · exact absurd (List.mem_append_left more hmem) hahead
  · rintro ⟨q, hstep⟩
    have hmem : t ∈ tokens ++ [t] := List.mem_append_right tokens (List.mem_singleton_self t)
    exact ⟨_, q, hreach.trans (.single hstep), hmem⟩

/-- A pass halts with the first of its steps that does. -/
theorem tokenize_of_halt {log : Log}
    (hreach : (Pass.pieces (Bytes.of source)).Reaches ⟨0, log⟩ tokens p)
    (h : (Pass.pieces (Bytes.of source)).step.run p = (none, q)) :
    tokenize source log = (q.log, none) := by
  have hrun : (Pass.tokens (Bytes.of source)).run ⟨0, log⟩ = (none, q) :=
    hreach.run_all.trans (Pass.run_bind_none (Steps.run_all_none h) _)
  rw [tokenize, hrun]

end Texts

end SourceScan
