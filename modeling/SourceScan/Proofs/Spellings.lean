import SourceScan.Proofs.SmallNumerals
import SourceScan.Token.Alphabet

/-!
# Proofs/Spellings.lean -- the texts that spell one numeral

A numeral may be written in many ways: with apostrophes behind its opening, with letters in either
case, with zeros ahead of its digits. None of this makes another opening of a text: a decimal numeral
without an opening has no letters, so a zero in front of it announces nothing.

* `Setting.HasValue`: the value a text is read as; `hasValue_iff`: what it is, and when there is one.
* `hasValue_filter`, `hasValue_zeros`: apostrophes left out, zeros put in.
* `hasValue_map_toLower`: letters made small; `SameLetter`: two cases of a letter.
* **`hasValue_respelled`**: all of them leave the value as it is.
-/

namespace SourceScan

open Text Alphabet

variable {setting : Setting} {radix : Radix} {points : ℕ} {ahead body text text' : List Char}
  {value : Binary32}

/-! ## 1. What a text is read as -/

/-- A text is read as a value, wherever it begins, and nothing is reported. -/
def Setting.HasValue (setting : Setting) (text : List Char) (value : Binary32) : Prop :=
  ∀ start p, (Pass.numeral setting start text).run p = (some value, p)

theorem Setting.HasValue.unique {value' : Binary32} (h : setting.HasValue text value)
    (h' : setting.HasValue text value') : value = value' :=
  Option.some.inj (congrArg Prod.fst ((h 0 ⟨0, .empty⟩).symm.trans (h' 0 ⟨0, .empty⟩)))

/-- **A text has a value if it holds behind its opening what it may, and it is that of its digits.** -/
theorem hasValue_iff (hopens : setting.Opens ahead radix body) :
    setting.HasValue (ahead ++ body) value ↔ setting.MayHold radix 1 body ∧
      value = Numeral.value ⟨radix, body.filterMap radix.digit?,
        Numeral.fractionDigits radix false body⟩ := by
  rcases setting.mayHold_or_stray radix 1 body with hbody | ⟨front, c, rest, rfl, hfront, hc⟩
  · have hvalue : setting.HasValue (ahead ++ body) (Numeral.value ⟨radix,
        body.filterMap radix.digit?, Numeral.fractionDigits radix false body⟩) := by
      intro start p
      rw [Pass.numeral, Numeral.parse_of_mayHold hopens hbody]
      rfl
    exact ⟨fun h => ⟨hbody, h.unique hvalue⟩, fun h => h.2 ▸ hvalue⟩
  · have hnot := not_accepts_of_refuses (refuses_of_stray hopens hfront hc rest)
    exact iff_of_false (fun h => hnot ⟨value, h⟩)
      fun h => hnot (accepts_of_parse (Numeral.parse_of_mayHold hopens h.1))

/-! ## 2. Openings -/

/-- What a decimal literal may hold opens nothing: there is no letter in it. -/
theorem opens_of_mayHold (h : Setting.literal.MayHold .decimal points body) :
    Setting.literal.Opens [] .decimal body := by
  refine .bare (fun hsetting => nomatch hsetting) fun c rest hbody radix hletter => ?_
  have hplain : ∀ entry ∈ Setting.literal.letters, entry.1 ≠ c.toLower := by
    rcases h.1 c (by simp [hbody]) with hdigit | ⟨-, rfl | rfl⟩
    · rw [Radix.isDigit_decimal] at hdigit
      exact Radix.of_isDigit (P := fun c => ∀ entry ∈ Setting.literal.letters, entry.1 ≠ c.toLower)
        (by decide) hdigit
    · decide
    · decide
  exact hplain _ hletter rfl

/-- So the opening of a literal stays what it is, whatever else it may hold behind it. -/
theorem Setting.Opens.of_mayHold {body' : List Char} (hopens : Setting.literal.Opens ahead radix body)
    (h : Setting.literal.MayHold radix points body') : Setting.literal.Opens ahead radix body' := by
  cases hopens with
  | letter hletter => exact .letter hletter _
  | lead hsetting => cases hsetting
  | bare => exact opens_of_mayHold h

/-- The letter that announces a radix in a literal is one of four. -/
theorem toLower_mem_of_letter {c : Char} (h : (c.toLower, radix) ∈ Setting.literal.letters) :
    c.toLower ∈ ['d', 'b', 'o', 'x'] :=
  List.mem_map_of_mem (f := Prod.fst) h

/-! ## 3. Apostrophes -/

theorem digit?_apostrophe (radix : Radix) : radix.digit? '\'' = none := by
  cases radix <;> decide

theorem filterMap_filter_apostrophe (radix : Radix) (body : List Char) :
    (body.filter (· ≠ '\'')).filterMap radix.digit? = body.filterMap radix.digit? := by
  induction body with
  | nil => rfl
  | cons c body ih =>
    by_cases hc : c = '\''
    · rw [List.filter_cons_of_neg (by simpa using hc), hc,
        List.filterMap_cons_none (digit?_apostrophe radix), ih]
    · rw [List.filter_cons_of_pos (by simpa using hc), List.filterMap_cons, List.filterMap_cons, ih]

theorem behindPoint_filter (body : List Char) : Numeral.behindPoint (body.filter (· ≠ '\'')) =
    (Numeral.behindPoint body).filter (· ≠ '\'') := by
  induction body with
  | nil => rfl
  | cons c body ih =>
    by_cases hpoint : c = '.'
    · subst hpoint
      rw [List.filter_cons_of_pos (by decide), Numeral.behindPoint_point, Numeral.behindPoint_point]
    · rw [Numeral.behindPoint_cons_of_ne hpoint, ← ih]
      by_cases hc : c = '\''
      · rw [List.filter_cons_of_neg (by simpa using hc)]
      · rw [List.filter_cons_of_pos (by simpa using hc), Numeral.behindPoint_cons_of_ne hpoint]

theorem mayHold_filter (h : setting.MayHold radix points body) :
    setting.MayHold radix points (body.filter (· ≠ '\'')) :=
  ⟨fun c hc => h.1 c (List.mem_of_mem_filter hc), (List.filter_sublist.count_le '.').trans h.2⟩

/-- **Apostrophes may be left out.** -/
theorem hasValue_filter (h : Setting.literal.HasValue text value) :
    Setting.literal.HasValue (text.filter (· ≠ '\'')) value := by
  obtain ⟨ahead, radix, body, rfl, hopens⟩ := Setting.literal.exists_opens text
  obtain ⟨hbody, rfl⟩ := (hasValue_iff hopens).mp h
  have hahead : ahead.filter (· ≠ '\'') = ahead := by
    refine List.filter_eq_self.mpr fun c hc => decide_eq_true ?_
    rintro rfl
    cases hopens with
    | letter hletter =>
      rcases List.mem_cons.mp hc with hc | hc
      · cases hc
      · rw [← List.mem_singleton.mp hc] at hletter
        exact absurd (toLower_mem_of_letter hletter) (by decide)
    | lead hsetting => cases hsetting
    | bare => cases hc
  have hdropped := mayHold_filter hbody
  rw [List.filter_append, hahead, hasValue_iff (hopens.of_mayHold hdropped),
    filterMap_filter_apostrophe, Numeral.fractionDigits, Numeral.fractionDigits,
    if_neg Bool.false_ne_true, if_neg Bool.false_ne_true, behindPoint_filter,
    filterMap_filter_apostrophe]
  exact ⟨hdropped, rfl⟩

/-! ## 4. Zeros -/

/-- A zero ahead of the digits adds nothing. -/
theorem value_zero_cons (radix : Radix) (digits : List ℕ) (k : ℕ) :
    Numeral.value ⟨radix, 0 :: digits, k⟩ = Numeral.value ⟨radix, digits, k⟩ := by
  have hzero : IsExact 0 := isExact_of_le (Nat.zero_le _)
  have hstep : (Binary32.zero.mul (.ofNat radix.base)).add (.ofNat 0) = Binary32.zero := by
    rw [Binary32.zero_eq, Binary32.mul_ofNat hzero (isExact_of_le radix.base_le), Nat.zero_mul,
      Binary32.add_ofNat hzero hzero]
  rw [Numeral.value, Numeral.value]
  dsimp only
  rw [Numeral.whole, List.foldl_cons, hstep, Numeral.whole]

/-- A zero or an apostrophe may be put behind the opening, -/
theorem hasValue_cons {c : Char} (hc : c = '0' ∨ c = '\'')
    (hopens : Setting.literal.Opens ahead radix body)
    (h : Setting.literal.HasValue (ahead ++ body) value) :
    Setting.literal.Opens ahead radix (c :: body) ∧
      Setting.literal.HasValue (ahead ++ c :: body) value := by
  obtain ⟨hbody, rfl⟩ := (hasValue_iff hopens).mp h
  have hmay : Setting.literal.MayHold radix 1 (c :: body) := by
    refine (Setting.mayHold_cons_of_ne (by rcases hc with rfl | rfl <;> decide)).mpr ⟨?_, hbody⟩
    exact hc.imp (fun hzero => by rw [hzero]; cases radix <;> decide) fun hmark => ⟨rfl, hmark⟩
  have hopens' := hopens.of_mayHold hmay
  refine ⟨hopens', (hasValue_iff hopens').mpr ⟨hmay, ?_⟩⟩
  rcases hc with rfl | rfl
  · have hdigit : radix.digit? '0' = some 0 := by cases radix <;> decide
    rw [List.filterMap_cons_some hdigit, value_zero_cons,
      Numeral.fractionDigits_digit (by decide) hdigit, if_neg Bool.false_ne_true]
  · rw [List.filterMap_cons_none (digit?_apostrophe radix),
      Numeral.fractionDigits_none (by decide) (digit?_apostrophe radix)]

/-- **and so may any number of them.** -/
theorem hasValue_zeros {zeros : List Char} (hzeros : ∀ c ∈ zeros, c = '0' ∨ c = '\'')
    (hopens : Setting.literal.Opens ahead radix body)
    (h : Setting.literal.HasValue (ahead ++ body) value) :
    Setting.literal.Opens ahead radix (zeros ++ body) ∧
      Setting.literal.HasValue (ahead ++ (zeros ++ body)) value := by
  induction zeros with
  | nil => exact ⟨hopens, h⟩
  | cons c zeros ih =>
    obtain ⟨hopens', h'⟩ := ih fun d hd => hzeros d (List.mem_cons_of_mem c hd)
    exact hasValue_cons (hzeros c List.mem_cons_self) hopens' h'

/-! ## 5. Letters -/

theorem toLower_of_le {c : Char} (h : 128 ≤ c.toNat) : c.toLower = c := by
  unfold Char.toLower
  split
  · next hupper =>
    exact absurd (UInt32.le_iff_toNat_le.mp hupper.2) (Nat.not_le.mpr (h.trans_lt' (by decide)))
  · rfl

/-- A small letter is the same small letter. -/
theorem toLower_toLower : ∀ c : Char, c.toLower.toLower = c.toLower :=
  forall_of_ascii (fun c hc => by rw [toLower_of_le hc, toLower_of_le hc]) (by decide +kernel)

/-- What is no letter is not made one. -/
theorem toLower_eq_iff {d : Char} (hd : d ∈ ['0', '\\', '\'', '.']) (c : Char) :
    c.toLower = d ↔ c = d := by
  refine forall_of_ascii (P := fun c => c.toLower = d ↔ c = d)
    (fun c hc => by rw [toLower_of_le hc]) ?_ c
  simp only [List.mem_cons, List.not_mem_nil, or_false] at hd
  rcases hd with rfl | rfl | rfl | rfl <;> decide +kernel

/-- Digits count in either case. -/
theorem digit?_toLower (radix : Radix) : ∀ c : Char, radix.digit? c.toLower = radix.digit? c :=
  forall_of_ascii (fun c hc => by rw [toLower_of_le hc]) (by cases radix <;> decide +kernel)

theorem filterMap_map_toLower (radix : Radix) (body : List Char) :
    (body.map Char.toLower).filterMap radix.digit? = body.filterMap radix.digit? := by
  rw [List.filterMap_map]
  exact List.filterMap_congr fun c _ => digit?_toLower radix c

theorem behindPoint_map_toLower (body : List Char) :
    Numeral.behindPoint (body.map Char.toLower) = (Numeral.behindPoint body).map Char.toLower := by
  induction body with
  | nil => rfl
  | cons c body ih =>
    by_cases hpoint : c = '.'
    · subst hpoint
      rw [List.map_cons, show Char.toLower '.' = '.' from rfl, Numeral.behindPoint_point,
        Numeral.behindPoint_point]
    · rw [List.map_cons, Numeral.behindPoint_cons_of_ne hpoint, ← ih,
        Numeral.behindPoint_cons_of_ne (mt (toLower_eq_iff (by decide) c).mp hpoint)]

theorem mayHold_map_toLower :
    setting.MayHold radix points (body.map Char.toLower) ↔ setting.MayHold radix points body := by
  have hdigit : ∀ c : Char, radix.isDigit c.toLower = radix.isDigit c := fun c => by
    rw [Radix.isDigit, digit?_toLower, Radix.isDigit]
  have hcount : (body.map Char.toLower).count '.' = body.count '.' := by
    rw [List.count_eq_countP, List.countP_map, List.count_eq_countP]
    refine List.countP_congr fun c _ => ?_
    simp [toLower_eq_iff (d := '.') (by decide) c]
  simp only [Setting.MayHold, List.forall_mem_map, hdigit, hcount,
    toLower_eq_iff (d := '\'') (by decide), toLower_eq_iff (d := '.') (by decide)]

theorem Setting.Opens.map_toLower (h : setting.Opens ahead radix body) :
    setting.Opens (ahead.map Char.toLower) radix (body.map Char.toLower) := by
  have hlead : setting.lead.toLower = setting.lead := by cases setting <;> rfl
  cases h with
  | letter hletter =>
    rw [List.map_cons, List.map_cons, List.map_nil, hlead]
    exact .letter (by rwa [toLower_toLower]) _
  | lead hsetting h =>
    rw [List.map_singleton, hlead]
    refine .lead hsetting fun c hc radix => ?_
    rw [List.head?_map] at hc
    obtain ⟨d, hd, rfl⟩ := Option.map_eq_some_iff.mp hc
    rw [toLower_toLower]
    exact h d hd radix
  | bare hnone h =>
    have hplain : setting.lead ∈ ['0', '\\', '\'', '.'] := by cases setting <;> decide
    refine .bare (fun hsetting hhead => ?_) fun c rest hbody radix => ?_
    · rw [List.head?_map] at hhead
      obtain ⟨d, hd, hlower⟩ := Option.map_eq_some_iff.mp hhead
      exact hnone hsetting (hd.trans (congrArg some ((toLower_eq_iff hplain d).mp hlower)))
    · obtain ⟨d, tail, rfl, hd, htail⟩ := List.map_eq_cons_iff.mp hbody
      obtain ⟨e, rest, rfl, rfl, -⟩ := List.map_eq_cons_iff.mp htail
      rw [toLower_toLower]
      exact h e rest (congrArg (· :: e :: rest) ((toLower_eq_iff hplain d).mp hd)) radix

/-- **A text has the value of the text with small letters.** -/
theorem hasValue_map_toLower :
    setting.HasValue (text.map Char.toLower) value ↔ setting.HasValue text value := by
  obtain ⟨ahead, radix, body, rfl, hopens⟩ := setting.exists_opens text
  rw [List.map_append, hasValue_iff hopens.map_toLower, hasValue_iff hopens, mayHold_map_toLower,
    filterMap_map_toLower, Numeral.fractionDigits, Numeral.fractionDigits,
    if_neg Bool.false_ne_true, if_neg Bool.false_ne_true, behindPoint_map_toLower,
    filterMap_map_toLower]

/-- The letters of ASCII that are a case of a letter beyond it: of a dotless or dotted i, of the
    Kelvin sign, of the long s. -/
def lettersBeyond : List Char :=
  ['i', 'k', 's', 'I', 'K', 'S']

/-- A character that may have a case beyond ASCII. -/
def ReachesBeyond (c : Char) : Prop :=
  128 ≤ c.toNat ∨ c ∈ lettersBeyond

/-- Two characters that are the same, or two cases of a letter. Beyond ASCII letters are not told
    apart here: any two characters count as cases of one, so no alphabet has a pair that is left
    out. -/
inductive SameLetter (c d : Char) : Prop
  | ascii (h : c.toLower = d.toLower)
  | beyond (hc : ReachesBeyond c) (hd : ReachesBeyond d)

theorem SameLetter.symm {c d : Char} (h : SameLetter c d) : SameLetter d c := by
  cases h with
  | ascii h => exact .ascii h.symm
  | beyond hc hd => exact .beyond hd hc

/-- No character of a numeral has a case beyond ASCII. -/
theorem not_reachesBeyond (h : Setting.literal.HasValue text value) {c : Char} (hc : c ∈ text) :
    ¬ ReachesBeyond c := by
  obtain ⟨ahead, radix, body, rfl, hopens⟩ := Setting.literal.exists_opens text
  obtain ⟨hbody, -⟩ := (hasValue_iff hopens).mp h
  rcases List.mem_append.mp hc with hc | hc
  · cases hopens with
    | @letter letter _ hletter =>
      rcases List.mem_cons.mp hc with rfl | hc
      · unfold ReachesBeyond
        decide
      · rw [List.mem_singleton.mp hc]
        have hall : ∀ entry ∈ Setting.literal.letters, entry.1.toNat < 128 ∧
            entry.1 ∉ lettersBeyond.map Char.toLower := by decide
        obtain ⟨hascii, hnone⟩ := hall _ hletter
        rintro (hfar | hmem)
        · exact absurd (toNat_lt_of_toLower hascii) (Nat.not_lt.mpr hfar)
        · exact hnone (List.mem_map_of_mem hmem)
    | lead hsetting => cases hsetting
    | bare => cases hc
  · rcases hbody.1 c hc with hdigit | ⟨-, rfl | rfl⟩
    · have hnone : lettersBeyond.any radix.isDigit = false := by cases radix <;> decide
      rintro (hfar | hmem)
      · exact absurd (Radix.toNat_lt_of_isDigit hdigit) (Nat.not_lt.mpr hfar)
      · exact List.any_eq_false.mp hnone c hmem hdigit
    · unfold ReachesBeyond
      decide
    · unfold ReachesBeyond
      decide

/-- Two cases of a text that has none beyond ASCII are the same in small letters. -/
theorem map_toLower_eq (hcommon : ∀ c ∈ text, ¬ ReachesBeyond c)
    (hsame : List.Forall₂ SameLetter text text') :
    text.map Char.toLower = text'.map Char.toLower := by
  induction hsame with
  | nil => rfl
  | cons hcd _ ih =>
    have hrest := ih fun c hc => hcommon c (List.mem_cons_of_mem _ hc)
    cases hcd with
    | ascii h => rw [List.map_cons, List.map_cons, h, hrest]
    | beyond hc => exact absurd hc (hcommon _ List.mem_cons_self)

/-- **The case of letters does not count.** -/
theorem hasValue_of_sameLetters (h : Setting.literal.HasValue text value)
    (hsame : List.Forall₂ SameLetter text text') : Setting.literal.HasValue text' value := by
  rw [← hasValue_map_toLower, ← map_toLower_eq (fun _ => not_reachesBeyond h) hsame,
    hasValue_map_toLower]
  exact h

/-! ## 6. All of them -/

/-- **Apostrophes left out, letters in other cases, zeros and apostrophes put behind the opening: the
    text is read as the same value.** A text that is no numeral does not become one by other cases of
    its letters. -/
theorem hasValue_respelled (text : List Char) :
    (∀ value, Setting.literal.HasValue text value →
      Setting.literal.HasValue (text.filter (· ≠ '\'')) value ∧
      (∀ text', List.Forall₂ SameLetter text text' → Setting.literal.HasValue text' value) ∧
      (∀ ahead radix body zeros, text = ahead ++ body → Setting.literal.Opens ahead radix body →
        (∀ c ∈ zeros, c = '0' ∨ c = '\'') →
        Setting.literal.HasValue (ahead ++ (zeros ++ body)) value)) ∧
    (¬ Setting.literal.Accepts text → ∀ text', List.Forall₂ SameLetter text text' →
      ¬ Setting.literal.Accepts text') := by
  refine ⟨fun value h => ⟨hasValue_filter h, fun text' => hasValue_of_sameLetters h, ?_⟩, ?_⟩
  · rintro ahead radix body zeros rfl hopens hzeros
    exact (hasValue_zeros hzeros hopens h).2
  · rintro hnot text' hsame ⟨value, h⟩
    exact hnot ⟨value, hasValue_of_sameLetters h (hsame.flip.imp fun _ _ => SameLetter.symm)⟩

/-- Fifteen and a half in hexadecimal, and a text that is no numeral for its last letter. -/
theorem hasValue_respelled_fifteen :
    let value := Binary32.finite false ⟨0x41780000, by decide⟩
    Setting.literal.HasValue "0X'F.8".toList value ∧
      Setting.literal.HasValue "0XF.8".toList value ∧
      Setting.literal.HasValue "0x'f.8".toList value ∧
      Setting.literal.HasValue "0X0'0'F.8".toList value ∧
      ¬ Setting.literal.Accepts "0XG".toList ∧ ¬ Setting.literal.Accepts "0xg".toList := by
  intro value
  have hparse : Numeral.parse .literal "0X'F.8".toList = .ok ⟨.hexadecimal, [15, 8], 1⟩ := by decide
  have hvalue : Numeral.value ⟨.hexadecimal, [15, 8], 1⟩ = value := by decide +kernel
  have h : Setting.literal.HasValue "0X'F.8".toList value := by
    intro start p
    rw [Pass.numeral, hparse, ← hvalue]
    rfl
  have hstray : Numeral.parse .literal "0XG".toList =
      .error ⟨.strayDigit 'G' .hexadecimal .literal, 2⟩ := by decide
  have hnot : ¬ Setting.literal.Accepts "0XG".toList :=
    not_accepts_of_refuses (refuses_of_parse hstray (by decide))
  obtain ⟨hfilter, hcases, hzeros⟩ := (hasValue_respelled "0X'F.8".toList).1 value h
  refine ⟨h, hfilter, hcases _ ?_, ?_, hnot, (hasValue_respelled "0XG".toList).2 hnot _ ?_⟩
  · exact .cons (.ascii rfl) (.cons (.ascii rfl) (.cons (.ascii rfl) (.cons (.ascii rfl)
      (.cons (.ascii rfl) (.cons (.ascii rfl) .nil)))))
  · exact hzeros ['0', 'X'] .hexadecimal "'F.8".toList "0'0".toList rfl (.letter (by decide) _)
      (by simp)
  · exact .cons (.ascii rfl) (.cons (.ascii rfl) (.cons (.ascii rfl) .nil))

end SourceScan
