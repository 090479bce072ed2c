import SourceScan.Numeral.Grammar
import SourceScan.Pass.Literal

/-!
# Proofs/Numerals.lean -- which texts are numerals

A text is a numeral if it holds, behind its opening, only what it may. Else there is a first character
that may not stand where it does, and this character decides: the text in front of it is a numeral,
and no text that goes on from it is one.

* `Setting.Accepts`, `Setting.Refuses`: what a pass makes of a text, with the report of a text that is
  no numeral.
* **`accepts_or_refuses`**: which texts are accepted, and what the others are refused for.
-/

namespace SourceScan

open Text

variable {setting : Setting} {radix : Radix} {ahead body front rest : List Char} {c : Char}

/-- A text is read as a number, wherever it begins, and nothing is reported. -/
def Setting.Accepts (setting : Setting) (text : List Char) : Prop :=
  ∃ value, ∀ start p, (Pass.numeral setting start text).run p = (some value, p)

/-- A text is refused with a sentence about its byte `offset`: wherever it begins, this is the one
    error that is reported, over the whole text, and the pass halts. -/
def Setting.Refuses (setting : Setting) (text : List Char) (sentence : String) (offset : Nat) :
    Prop :=
  ∀ start p, ∃ position : Position, position.start = start ∧ position.length = width text ∧
    position.pointer = offset ∧ (Pass.numeral setting start text).run p =
      (none, ⟨p.offset, ⟨p.log.messages ++ [⟨sentence, .error, position⟩]⟩⟩)

theorem accepts_of_parse {text : List Char} {n : Numeral} (h : Numeral.parse setting text = .ok n) :
    setting.Accepts text := by
  refine ⟨n.value, fun start p => ?_⟩
  rw [Pass.numeral, h]
  rfl

theorem refuses_of_parse {text : List Char} {m : Misplaced}
    (h : Numeral.parse setting text = .error m) (hle : m.offset ≤ width text) :
    setting.Refuses text m.fault.text m.offset := by
  intro start p
  refine ⟨.clamped start (width text) m.offset, rfl, rfl, Nat.min_eq_left hle, ?_⟩
  rw [Pass.numeral, h]
  rfl

/-- No text is both. -/
theorem not_accepts_of_refuses {text : List Char} {sentence : String} {offset : Nat}
    (h : setting.Refuses text sentence offset) : ¬ setting.Accepts text := by
  rintro ⟨value, haccepts⟩
  obtain ⟨position, -, -, -, hrefuses⟩ := h 0 ⟨0, .empty⟩
  rw [haccepts] at hrefuses
  cases hrefuses

/-- The sentence about a character that may not stand where it does. -/
theorem text_misplaced (hc : setting.Stray radix 1 front c) :
    (setting.misplaced radix c).text =
      if setting = .literal ∧ c = '.' ∧ '.' ∈ front then
        "multiple decimal points in " ++ radix.name ++ " " ++ setting.name
      else "invalid character `" ++ String.ofList [c] ++ "` in " ++ radix.name ++ " " ++
        setting.name := by
  rw [Setting.misplaced]
  split
  · next h =>
    have hmem : '.' ∈ front := List.count_pos_iff.mp (hc.not_point h.1 h.2 ▸ Nat.one_pos)
    rw [if_pos ⟨h.1, h.2, hmem⟩]
    rfl
  · next h =>
    rw [if_neg fun h' => h ⟨h'.1, h'.2.1⟩]
    rfl

/-- A character that may not stand where it does has every text refused that goes on from it. -/
theorem refuses_of_stray (hopens : setting.Opens ahead radix (front ++ c :: rest))
    (hfront : setting.MayHold radix 1 front) (hc : setting.Stray radix 1 front c)
    (more : List Char) : setting.Refuses (ahead ++ (front ++ c :: more))
      (setting.misplaced radix c).text (width (ahead ++ front)) := by
  refine refuses_of_parse (Numeral.parse_of_stray (hopens.of_stray hc more) hfront hc) ?_
  rw [← List.append_assoc, width_append _ (c :: more)]
  exact Nat.le_add_right ..

/-- **Every text opens in one way, and is accepted if and only if it holds behind its opening only
    digits of the radix, and in a literal apostrophes and one point at most. Any other text has a
    first character that makes it none**: what stands in front of it is accepted, and everything that
    goes on from it is refused, with the same sentence about the same byte. -/
theorem accepts_or_refuses (setting : Setting) (text : List Char) :
    ∃ ahead radix body, text = ahead ++ body ∧ setting.Opens ahead radix body ∧
      setting.split text = (radix, ahead.length) ∧
      (setting.Accepts text ↔
        (∀ c ∈ body, radix.isDigit c = true ∨ setting = .literal ∧ (c = '\'' ∨ c = '.')) ∧
          body.count '.' ≤ 1) ∧
      (setting.Accepts text ∨ ∃ front c rest, body = front ++ c :: rest ∧
        setting.Accepts (ahead ++ front) ∧
        ∀ more, setting.Refuses (ahead ++ (front ++ c :: more))
          (if setting = .literal ∧ c = '.' ∧ '.' ∈ front then
            "multiple decimal points in " ++ radix.name ++ " " ++ setting.name
          else "invalid character `" ++ String.ofList [c] ++ "` in " ++ radix.name ++ " " ++
            setting.name)
          (width (ahead ++ front))) := by
  obtain ⟨ahead, radix, body, rfl, hopens⟩ := setting.exists_opens text
  refine ⟨ahead, radix, body, rfl, hopens, Setting.split_of_opens hopens, ?_⟩
  rcases setting.mayHold_or_stray radix 1 body with hbody | ⟨front, c, rest, rfl, hfront, hc⟩
  · have haccepts := accepts_of_parse (Numeral.parse_of_mayHold hopens hbody)
    exact ⟨⟨fun _ => hbody, fun _ => haccepts⟩, .inl haccepts⟩
  · have hrefuses := refuses_of_stray hopens hfront hc
    refine ⟨⟨fun h => absurd h (not_accepts_of_refuses (hrefuses rest)), fun hbody => ?_⟩,
      .inr ⟨front, c, rest, rfl, ?_, text_misplaced hc ▸ hrefuses⟩⟩
    · exact accepts_of_parse (Numeral.parse_of_mayHold hopens hbody)
    · exact accepts_of_parse (Numeral.parse_of_mayHold hopens.front hfront)

/-- What an accepted text is read as. -/
theorem value_of_run {start : Nat} {text : List Char} {p q : Progress} {value : Binary32}
    (h : (Pass.numeral setting start text).run p = (some value, q)) : value =
      Numeral.value ⟨setting.radixOf text, setting.digitsOf text, setting.fractionOf text⟩ := by
  rw [Pass.numeral] at h
  cases hparse : Numeral.parse setting text with
  | error m =>
    rw [hparse] at h
    cases h
  | ok n =>
    rw [hparse] at h
    cases h
    rw [Numeral.eq_of_parse hparse]

end SourceScan
