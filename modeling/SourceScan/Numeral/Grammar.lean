import SourceScan.Numeral.Basic

/-!
# Numeral/Grammar.lean -- the texts that spell a numeral

Which texts are numerals, without a reader: an opening that announces the radix, and behind it digits,
in a literal also apostrophes and one point. The first character that is none of these is where a text
stops to be the beginning of any numeral.

* `Setting.Opens`: what stands ahead of the digits, and the radix it announces.
* `Setting.MayHold`: what may stand behind it.
* `Setting.Stray`: the first character that may not, and the fault it is.
* `split_of_opens`, `exists_opens`: `Setting.split` finds the opening of a text.
* **`Numeral.parse_of_mayHold`**, **`Numeral.parse_of_stray`**: what becomes of a text of either kind.
-/

namespace SourceScan

open Text

/-! ## 1. The grammar -/

/-- The letters that announce a radix, in lower case. -/
def Setting.letters : Setting → List (Char × Radix)
  | literal => [('d', .decimal), ('b', .binary), ('o', .octal), ('x', .hexadecimal)]
  | escapeCode => [('d', .decimal), ('i', .binary), ('o', .octal), ('x', .hexadecimal)]

/-- The opening of a text, the radix it announces, and what stands behind it. -/
inductive Setting.Opens (setting : Setting) : List Char → Radix → List Char → Prop
  /-- the lead and a letter in either case -/
  | letter {letter : Char} {radix : Radix} (h : (letter.toLower, radix) ∈ setting.letters)
      (body : List Char) : Opens setting [setting.lead, letter] radix body
  /-- the backslash of an escape code that no letter follows -/
  | lead {body : List Char} (hsetting : setting = .escapeCode)
      (h : ∀ c ∈ body.head?, ∀ radix, (c.toLower, radix) ∉ setting.letters) :
      Opens setting [setting.lead] .decimal body
  /-- nothing -/
  | bare {body : List Char} (hlead : setting = .escapeCode → body.head? ≠ some setting.lead)
      (h : ∀ c rest, body = setting.lead :: c :: rest →
        ∀ radix, (c.toLower, radix) ∉ setting.letters) :
      Opens setting [] .decimal body

/-- What may stand behind an opening: digits, and in a literal apostrophes and some points. -/
def Setting.MayHold (setting : Setting) (radix : Radix) (points : Nat) (body : List Char) : Prop :=
  (∀ c ∈ body, radix.isDigit c = true ∨ setting = .literal ∧ (c = '\'' ∨ c = '.')) ∧
    body.count '.' ≤ points

/-- The fault that a character is which may not stand where it does. -/
def Setting.misplaced (setting : Setting) (radix : Radix) (c : Char) : Fault :=
  if setting = .literal ∧ c = '.' then .secondPoint radix setting else .strayDigit c radix setting

/-- A character that may not stand behind an opening and `front`: no digit, and in a literal no
    apostrophe and no first point. -/
structure Setting.Stray (setting : Setting) (radix : Radix) (points : Nat) (front : List Char)
    (c : Char) : Prop where
  not_digit : radix.isDigit c = false
  not_apostrophe : setting = .literal → c ≠ '\''
  not_point : setting = .literal → c = '.' → front.count '.' = points

/-! ## 2. Openings -/

theorem toNat_lt_of_toLower {c : Char} (h : c.toLower.toNat < 128) : c.toNat < 128 := by
  unfold Char.toLower at h
  split at h
  · next hupper => exact Nat.lt_of_le_of_lt (UInt32.le_iff_toNat_le.mp hupper.2) (by decide)
  · exact h

theorem Setting.announced?_eq_some_iff {setting : Setting} {c : Char} {radix : Radix} :
    setting.announced? c = some radix ↔ (c, radix) ∈ setting.letters := by
  cases setting <;> unfold announced? <;> split <;> simp_all [letters, eq_comm]

theorem Setting.announced?_eq_none {setting : Setting} {c : Char}
    (h : ∀ radix, (c, radix) ∉ setting.letters) : setting.announced? c = none := by
  cases hradix : setting.announced? c with
  | none => rfl
  | some radix => exact absurd (announced?_eq_some_iff.mp hradix) (h radix)

/-- **The opening of a text is what `Setting.split` finds.** -/
theorem Setting.split_of_opens {setting : Setting} {ahead body : List Char} {radix : Radix}
    (h : setting.Opens ahead radix body) : setting.split (ahead ++ body) = (radix, ahead.length) := by
  cases h with
  | letter h =>
    show split setting (setting.lead :: _ :: body) = _
    rw [split, if_pos rfl, announced?_eq_some_iff.mpr h]
    rfl
  | lead hsetting h =>
    subst hsetting
    cases body with
    | nil => rfl
    | cons c body =>
      show split .escapeCode (escapeCode.lead :: c :: body) = _
      rw [split, if_pos rfl, announced?_eq_none (h c rfl)]
      rfl
  | bare hlead h =>
    rw [List.nil_append]
    match body with
    | [] => rfl
    | [c] =>
      rw [split]
      split
      · next hc =>
        cases setting with
        | literal => rfl
        | escapeCode => exact absurd (congrArg some hc) (hlead rfl)
      · rfl
    | c :: d :: body =>
      rw [split]
      split
      · next hc =>
        cases setting with
        | literal =>
          rw [announced?_eq_none (h d body (hc ▸ rfl))]
          rfl
        | escapeCode => exact absurd (congrArg some hc) (hlead rfl)
      · rfl

/-- Every text has an opening. -/
theorem Setting.exists_opens (setting : Setting) (text : List Char) :
    ∃ ahead radix body, text = ahead ++ body ∧ setting.Opens ahead radix body := by
  by_cases hletter : ∃ c rest radix, text = setting.lead :: c :: rest ∧
      (c.toLower, radix) ∈ setting.letters
  · obtain ⟨c, rest, radix, rfl, h⟩ := hletter
    exact ⟨[setting.lead, c], radix, rest, rfl, .letter h rest⟩
  · have hno : ∀ c rest, text = setting.lead :: c :: rest →
        ∀ radix, (c.toLower, radix) ∉ setting.letters :=
      fun c rest htext radix h => hletter ⟨c, rest, radix, htext, h⟩
    by_cases hlead : setting = .escapeCode ∧ text.head? = some setting.lead
    · obtain ⟨hsetting, hhead⟩ := hlead
      obtain ⟨rest, rfl⟩ := List.head?_eq_some_iff.mp hhead
      refine ⟨[setting.lead], .decimal, rest, rfl, .lead hsetting fun c hc => ?_⟩
      obtain ⟨rest, rfl⟩ := List.head?_eq_some_iff.mp hc
      exact hno c rest rfl
    · exact ⟨[], .decimal, text, rfl, .bare (fun hsetting hhead => hlead ⟨hsetting, hhead⟩) hno⟩

/-- An opening is ASCII. -/
theorem Setting.Opens.width_eq {setting : Setting} {ahead body : List Char} {radix : Radix}
    (h : setting.Opens ahead radix body) : width ahead = ahead.length := by
  have hlead : setting.lead.toNat < 128 := by cases setting <;> decide
  refine width_of_lt fun c hc => ?_
  cases h with
  | @letter letter radix h =>
    rcases List.mem_cons.mp hc with rfl | hc
    · exact hlead
    · rw [List.mem_singleton.mp hc]
      refine toNat_lt_of_toLower ?_
      have hall : ∀ entry ∈ setting.letters, entry.1.toNat < 128 := by cases setting <;> decide
      exact hall _ h
  | lead => exact List.mem_singleton.mp hc ▸ hlead
  | bare => cases hc

/-- **What decides about an opening is what stands there up to the first character that may not.** -/
theorem Setting.Opens.of_stray {setting : Setting} {ahead front rest : List Char} {radix : Radix}
    {points : Nat} {c : Char} (h : setting.Opens ahead radix (front ++ c :: rest))
    (hc : setting.Stray radix points front c) (more : List Char) :
    setting.Opens ahead radix (front ++ c :: more) := by
  cases h with
  | letter h => exact .letter h _
  | lead hsetting h =>
    refine .lead hsetting ?_
    cases front <;> exact h
  | bare hlead h =>
    refine .bare (by cases front <;> exact hlead) fun d tail hbody => ?_
    match front with
    | [] =>
      cases hbody
      cases setting with
      | literal => exact absurd hc.not_digit (by decide)
      | escapeCode => exact absurd rfl (hlead rfl)
    | [e] =>
      cases hbody
      exact h c rest rfl
    | e :: e' :: front =>
      cases hbody
      exact h d (front ++ c :: rest) rfl

/-- So the text in front of it opens in the same way. -/
theorem Setting.Opens.front {setting : Setting} {ahead front rest : List Char} {radix : Radix}
    (h : setting.Opens ahead radix (front ++ rest)) : setting.Opens ahead radix front := by
  cases h with
  | letter h => exact .letter h _
  | lead hsetting h =>
    refine .lead hsetting fun c hc => h c ?_
    obtain ⟨tail, rfl⟩ := List.head?_eq_some_iff.mp hc
    rfl
  | bare hlead h =>
    refine .bare (fun hsetting hhead => hlead hsetting ?_) fun c tail hfront => ?_
    · obtain ⟨tail, rfl⟩ := List.head?_eq_some_iff.mp hhead
      rfl
    · exact h c (tail ++ rest) (by rw [hfront]; rfl)

/-! ## 3. Behind the opening -/

namespace Setting

variable {setting : Setting} {radix : Radix} {points : Nat} {c : Char} {body : List Char}

theorem mayHold_nil : setting.MayHold radix points [] :=
  ⟨fun _ h => absurd h List.not_mem_nil, Nat.zero_le _⟩

/-- A digit or an apostrophe leaves the points that may follow. -/
theorem mayHold_cons_of_ne (hc : c ≠ '.') : setting.MayHold radix points (c :: body) ↔
    (radix.isDigit c = true ∨ setting = .literal ∧ c = '\'') ∧ setting.MayHold radix points body := by
  simp [MayHold, hc, and_assoc]

/-- A point takes one of them. -/
theorem mayHold_point : setting.MayHold radix points ('.' :: body) ↔
    setting = .literal ∧ 0 < points ∧ setting.MayHold radix (points - 1) body := by
  have hdigit : radix.isDigit '.' = false := by cases radix <;> decide
  simp only [MayHold, List.forall_mem_cons, hdigit, List.count_cons_self]
  constructor
  · rintro ⟨⟨hpoint, hbody⟩, hcount⟩
    exact ⟨by simpa using hpoint, by omega, hbody, by omega⟩
  · rintro ⟨hsetting, hpos, hbody, hcount⟩
    exact ⟨⟨by simpa using hsetting, hbody⟩, by omega⟩

/-- A character that may not stand behind a front may not stand behind less of it. -/
theorem Stray.of_cons {front : List Char} {d : Char} (hd : d ≠ '.')
    (h : setting.Stray radix points (d :: front) c) : setting.Stray radix points front c :=
  ⟨h.not_digit, h.not_apostrophe, fun hsetting hc => by
    simpa [List.count_cons_of_ne hd] using h.not_point hsetting hc⟩

/-- Behind a point there is one point less to come. -/
theorem Stray.of_point {front : List Char} (h : setting.Stray radix points ('.' :: front) c) :
    setting.Stray radix (points - 1) front c :=
  ⟨h.not_digit, h.not_apostrophe, fun hsetting hc => by
    have hcount := h.not_point hsetting hc
    rw [List.count_cons_self] at hcount
    omega⟩

/-- **A text holds what it may, or there is a first character that may not stand where it does.** -/
theorem mayHold_or_stray (setting : Setting) (radix : Radix) (points : Nat) (body : List Char) :
    setting.MayHold radix points body ∨ ∃ front c rest, body = front ++ c :: rest ∧
      setting.MayHold radix points front ∧ setting.Stray radix points front c := by
  induction body generalizing points with
  | nil => exact .inl mayHold_nil
  | cons d body ih =>
    have hstray : setting.Stray radix points [] d → ∃ front c rest, d :: body = front ++ c :: rest ∧
        setting.MayHold radix points front ∧ setting.Stray radix points front c :=
      fun h => ⟨[], d, body, rfl, mayHold_nil, h⟩
    by_cases hpoint : d = '.'
    · subst hpoint
      by_cases hmay : setting = .literal ∧ 0 < points
      · obtain ⟨hsetting, hpos⟩ := hmay
        rcases ih (points - 1) with hbody | ⟨front, c, rest, rfl, hfront, hc⟩
        · exact .inl (mayHold_point.mpr ⟨hsetting, hpos, hbody⟩)
        · refine .inr ⟨'.' :: front, c, rest, rfl, mayHold_point.mpr ⟨hsetting, hpos, hfront⟩,
            hc.not_digit, hc.not_apostrophe, fun hliteral hdot => ?_⟩
          rw [List.count_cons_self, hc.not_point hliteral hdot]
          omega
      · refine .inr (hstray ⟨by cases radix <;> decide, fun _ => by decide, fun hsetting _ => ?_⟩)
        exact (Nat.eq_zero_of_not_pos fun hpos => hmay ⟨hsetting, hpos⟩).symm
    · by_cases hmay : radix.isDigit d = true ∨ setting = .literal ∧ d = '\''
      · rcases ih points with hbody | ⟨front, c, rest, rfl, hfront, hc⟩
        · exact .inl ((mayHold_cons_of_ne hpoint).mpr ⟨hmay, hbody⟩)
        · refine .inr ⟨d :: front, c, rest, rfl, (mayHold_cons_of_ne hpoint).mpr ⟨hmay, hfront⟩,
            hc.not_digit, hc.not_apostrophe, fun hliteral hdot => ?_⟩
          rw [List.count_cons_of_ne hpoint, hc.not_point hliteral hdot]
      · rw [not_or, Bool.not_eq_true] at hmay
        exact .inr (hstray ⟨hmay.1, fun hsetting hd => hmay.2 ⟨hsetting, hd⟩,
          fun _ hdot => absurd hdot hpoint⟩)

end Setting

namespace Numeral

variable {setting : Setting} {radix : Radix} {points : Nat} {c : Char} {body : List Char}

/-- What stands behind the point, if one is to come. -/
def behindPoint (body : List Char) : List Char :=
  (body.dropWhile (· ≠ '.')).drop 1

theorem behindPoint_cons_of_ne (hc : c ≠ '.') : behindPoint (c :: body) = behindPoint body := by
  rw [behindPoint, List.dropWhile_cons_of_pos (by simpa using hc), behindPoint]

theorem behindPoint_point : behindPoint ('.' :: body) = body := by
  rw [behindPoint, List.dropWhile_cons_of_neg (by simp)]
  rfl

/-- How many of the digits stand behind a point: all of them, if it is ahead of the text. -/
def fractionDigits (radix : Radix) (pointed : Bool) (body : List Char) : Nat :=
  ((if pointed then body else behindPoint body).filterMap radix.digit?).length

theorem fractionDigits_digit {pointed : Bool} {d : Nat} (hc : c ≠ '.')
    (hdigit : radix.digit? c = some d) : fractionDigits radix pointed (c :: body) =
      if pointed then fractionDigits radix pointed body + 1
      else fractionDigits radix pointed body := by
  cases pointed with
  | true => simp [fractionDigits, hdigit]
  | false => simp [fractionDigits, behindPoint_cons_of_ne hc]

theorem fractionDigits_none {pointed : Bool} (hc : c ≠ '.') (hdigit : radix.digit? c = none) :
    fractionDigits radix pointed (c :: body) = fractionDigits radix pointed body := by
  cases pointed with
  | true => simp [fractionDigits, hdigit]
  | false => simp [fractionDigits, behindPoint_cons_of_ne hc]

theorem fractionDigits_point : fractionDigits radix false ('.' :: body) =
    fractionDigits radix true body := by
  simp [fractionDigits, behindPoint_point]

/-- Points that may still come. -/
def pointsLeft (pointed : Bool) : Nat :=
  if pointed then 0 else 1

theorem digit?_eq_none (h : radix.isDigit c = false) : radix.digit? c = none := by
  simpa [Radix.isDigit] using h

/-- **What may stand behind an opening is read as its digits.** -/
theorem digitsFrom_of_mayHold {pointed : Bool}
    (h : setting.MayHold radix (pointsLeft pointed) body) (offset : Nat) :
    digitsFrom setting radix pointed offset body =
      .ok (body.filterMap radix.digit?, fractionDigits radix pointed body) := by
  induction body generalizing pointed offset with
  | nil => cases pointed <;> rfl
  | cons c body ih =>
    by_cases hpoint : c = '.'
    · subst hpoint
      obtain ⟨rfl, hpos, hbody⟩ := Setting.mayHold_point.mp h
      have hdigit : radix.digit? '.' = none := by cases radix <;> decide
      obtain rfl : pointed = false := by
        cases pointed with
        | true => exact absurd hpos (by decide)
        | false => rfl
      have hrest : Setting.literal.MayHold radix (pointsLeft true) body := hbody
      rw [digitsFrom, hdigit]
      dsimp only
      rw [if_pos ⟨rfl, rfl⟩, if_neg Bool.false_ne_true, ih hrest, List.filterMap_cons_none hdigit,
        fractionDigits_point]
    · obtain ⟨hc, hbody⟩ := (Setting.mayHold_cons_of_ne hpoint).mp h
      rw [digitsFrom]
      cases hdigit : radix.digit? c with
      | some d =>
        dsimp only
        rw [ih hbody, List.filterMap_cons_some hdigit, fractionDigits_digit hpoint hdigit]
        rfl
      | none =>
        have hliteral : setting = .literal ∧ c = '\'' :=
          hc.resolve_left (by simp [Radix.isDigit, hdigit])
        dsimp only
        rw [if_neg (fun h => hpoint h.2), if_pos hliteral, ih hbody,
          List.filterMap_cons_none hdigit, fractionDigits_none hpoint hdigit]

/-- **The first character that may not stand where it does is the fault of the text**, whatever
    comes behind it. -/
theorem digitsFrom_of_stray {pointed : Bool} {front rest : List Char}
    (hfront : setting.MayHold radix (pointsLeft pointed) front)
    (hc : setting.Stray radix (pointsLeft pointed) front c) (offset : Nat) :
    digitsFrom setting radix pointed offset (front ++ c :: rest) =
      .error ⟨setting.misplaced radix c, offset + width front⟩ := by
  induction front generalizing pointed offset with
  | nil =>
    rw [List.nil_append, digitsFrom, digit?_eq_none hc.not_digit]
    dsimp only
    by_cases hpoint : setting = .literal ∧ c = '.'
    · have hpointed : pointed = true := by
        have hleft := hc.not_point hpoint.1 hpoint.2
        cases pointed with
        | true => rfl
        | false => cases hleft
      rw [if_pos hpoint, if_pos hpointed, Setting.misplaced, if_pos hpoint]
      rfl
    · rw [if_neg hpoint, if_neg fun h => hc.not_apostrophe h.1 h.2, Setting.misplaced,
        if_neg hpoint]
      rfl
  | cons d front ih =>
    rw [width_cons, ← Nat.add_assoc, List.cons_append, digitsFrom]
    by_cases hpoint : d = '.'
    · subst hpoint
      obtain ⟨rfl, hpos, hrest⟩ := Setting.mayHold_point.mp hfront
      have hdigit : radix.digit? '.' = none := by cases radix <;> decide
      obtain rfl : pointed = false := by
        cases pointed with
        | true => exact absurd hpos (by decide)
        | false => rfl
      have hbehind : Setting.literal.MayHold radix (pointsLeft true) front := hrest
      have hstray : Setting.literal.Stray radix (pointsLeft true) front c := hc.of_point
      rw [hdigit]
      dsimp only
      rw [if_pos ⟨rfl, rfl⟩, if_neg Bool.false_ne_true, ih hbehind hstray]
    · obtain ⟨hd, hrest⟩ := (Setting.mayHold_cons_of_ne hpoint).mp hfront
      have hstray := hc.of_cons hpoint
      cases hdigit : radix.digit? d with
      | some n =>
        dsimp only
        rw [ih hrest hstray]
        rfl
      | none =>
        have hliteral : setting = .literal ∧ d = '\'' :=
          hd.resolve_left (by simp [Radix.isDigit, hdigit])
        dsimp only
        rw [if_neg (fun h => hpoint h.2), if_pos hliteral, ih hrest hstray]

/-! ## 4. Whole texts -/

variable {ahead : List Char}

/-- **A text is read as its digits** if it holds behind its opening what it may. -/
theorem parse_of_mayHold (hopens : setting.Opens ahead radix body)
    (h : setting.MayHold radix 1 body) : parse setting (ahead ++ body) =
      .ok ⟨radix, body.filterMap radix.digit?, fractionDigits radix false body⟩ := by
  have hdigits : digitsFrom setting radix false ahead.length body = _ := digitsFrom_of_mayHold h _
  rw [parse, Setting.split_of_opens hopens]
  dsimp only
  rw [List.drop_left, hdigits]
  rfl

/-- **Else its first character that may not stand where it does is misplaced.** -/
theorem parse_of_stray {front rest : List Char}
    (hopens : setting.Opens ahead radix (front ++ c :: rest))
    (hfront : setting.MayHold radix 1 front) (hc : setting.Stray radix 1 front c) :
    parse setting (ahead ++ (front ++ c :: rest)) =
      .error ⟨setting.misplaced radix c, width (ahead ++ front)⟩ := by
  have hdigits : digitsFrom setting radix false ahead.length (front ++ c :: rest) = _ :=
    digitsFrom_of_stray hfront hc _
  rw [parse, Setting.split_of_opens hopens]
  dsimp only
  rw [List.drop_left, hdigits, width_append, hopens.width_eq]
  rfl

end Numeral

namespace Setting

/-- The radix a text announces. -/
def radixOf (setting : Setting) (text : List Char) : Radix :=
  (setting.split text).1

/-- What stands behind the opening of a text. -/
def bodyOf (setting : Setting) (text : List Char) : List Char :=
  text.drop (setting.split text).2

/-- The digits of a text. -/
def digitsOf (setting : Setting) (text : List Char) : List Nat :=
  (setting.bodyOf text).filterMap (setting.radixOf text).digit?

/-- How many of the digits of a text stand behind its point. -/
def fractionOf (setting : Setting) (text : List Char) : Nat :=
  ((Numeral.behindPoint (setting.bodyOf text)).filterMap (setting.radixOf text).digit?).length

/-- The digits of a text are less than its base. -/
theorem digitsOf_lt {setting : Setting} {text : List Char} {d : Nat}
    (h : d ∈ setting.digitsOf text) : d < (setting.radixOf text).base := by
  obtain ⟨c, -, hc⟩ := List.mem_filterMap.mp h
  exact Radix.digit?_lt hc

end Setting

/-- **The numeral that a text is read as is its digits**, if it is read as one. -/
theorem Numeral.eq_of_parse {setting : Setting} {text : List Char} {n : Numeral}
    (h : parse setting text = .ok n) :
    n = ⟨setting.radixOf text, setting.digitsOf text, setting.fractionOf text⟩ := by
  obtain ⟨ahead, radix, body, rfl, hopens⟩ := setting.exists_opens text
  have hsplit := Setting.split_of_opens hopens
  have hbody : setting.bodyOf (ahead ++ body) = body := by
    rw [Setting.bodyOf, hsplit, List.drop_left]
  have hradix : setting.radixOf (ahead ++ body) = radix := by
    rw [Setting.radixOf, hsplit]
  rw [Setting.digitsOf, Setting.fractionOf, hbody, hradix]
  rcases setting.mayHold_or_stray radix 1 body with hmay | ⟨front, c, rest, rfl, hfront, hc⟩
  · rw [parse_of_mayHold hopens hmay] at h
    cases h
    rfl
  · rw [parse_of_stray hopens hfront hc] at h
    cases h

end SourceScan
