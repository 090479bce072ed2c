import SourceScan.Proofs.Decomposition

/-!
# Proofs/Pointing.lean -- what the messages of a pass point at

A message of a pass is about a stretch of its text. There are two kinds of stretches, and every place
that reports makes one of them:

* whole characters, with the pointer at one of them;
* whole characters and one byte more, with the pointer behind the characters, where something is
  missing. That byte need not exist, and need not be all of the character that stands there.

`PointsAt` says so; it is shown of one stage after the other, each reading from a place between
characters (`Reports.escape`, `Reports.body`, `Reports.piece`, `Reports.tokensFrom`).

* **`pointsInto_of_tokenize`**: a message of a pass points into its text, and at most the one byte
  goes past the end.
* **`isBoundary_stop_iff`**: the stretch ends between characters, but for missing digits in front of
  a character of several bytes.
-/

namespace SourceScan

open Text Alphabet

variable {α β : Type} {source : List Char}

/-! ## 1. What a stage reports -/

/-- All that a stage reports has a property. -/
def Reports (P : Message → Prop) (s : Stage α) : Prop :=
  ∀ m ∈ s.messages, P m

section Reports

variable {P : Message → Prop}

theorem reports_pure (a : α) : Reports P (pure a : Stage α) :=
  fun _ hm => absurd hm List.not_mem_nil

theorem reports_fail {fault : Fault} {position : Position} {stop : Nat}
    (h : P ⟨fault.text, .error, position⟩) :
    Reports P (Stage.fail fault position stop : Stage α) := by
  intro m hm
  obtain rfl : m = ⟨fault.text, .error, position⟩ := List.mem_singleton.mp hm
  exact h

theorem reports_warn {w : Oversize} (h : P w.message) : Reports P (Stage.warn w) := by
  intro m hm
  obtain rfl : m = w.message := List.mem_singleton.mp hm
  exact h

/-- **Two stages report what each of them reports.** -/
theorem reports_bind {s : Stage α} {next : α → Stage β} (hs : Reports P s)
    (hnext : ∀ a, s.outcome = .ok a → Reports P (next a)) : Reports P (s >>= next) := by
  obtain ⟨ws, outcome⟩ := s
  cases outcome with
  | error f => exact hs
  | ok a =>
    intro m hm
    rw [Stage.messages_bind_of_ok rfl] at hm
    rcases List.mem_append.mp hm with hm | hm
    · exact hs m hm
    · exact hnext a rfl m hm

theorem reports_bind_pure {s : Stage α} (hs : Reports P s) (f : α → β) :
    Reports P (s >>= fun a => pure (f a)) :=
  reports_bind hs fun _ _ => reports_pure _

end Reports

/-! ## 2. What a message points at -/

/-- A sentence that is not about missing digits. -/
def NoMissingDigits (text : String) : Prop :=
  ∀ radix, text ≠ (Fault.missingDigits radix).text

/-- What a message of a pass over `source` points at. -/
inductive PointsAt (source : List Char) : Message → Prop
  /-- a character among others -/
  | character {text : String} {severity : Severity} {front before behind rest : List Char}
      {c : Char} (hsource : source = front ++ (before ++ c :: behind) ++ rest)
      (htext : NoMissingDigits text) :
      PointsAt source ⟨text, severity,
        .clamped (width front) (width (before ++ c :: behind)) (width before)⟩
  /-- the place behind some characters, where the text ends -/
  | ending {front taken rest : List Char} (hsource : source = front ++ taken ++ rest)
      (hne : taken ≠ []) (hrest : ∀ c, rest.head? = some c → c = '\x00') :
      PointsAt source ⟨Fault.unexpectedEnd.text, .error,
        .clamped (width front) (width taken + 1) (width taken)⟩
  /-- the place behind some characters, where a digit should stand -/
  | digits {front taken rest : List Char} (radix : Radix)
      (hsource : source = front ++ taken ++ rest) (hne : taken ≠ []) :
      PointsAt source ⟨(Fault.missingDigits radix).text, .error,
        .clamped (width front) (width taken + 1) (width taken)⟩

theorem head?_toList_append {head : String} {c : Char} (h : head.toList.head? = some c)
    (rest : String) : (head ++ rest).toList.head? = some c := by
  rw [String.toList_append, List.head?_append, h]
  rfl

/-- The first character of a sentence tells that it is not about missing digits. -/
theorem noMissingDigits_of_head? {text : String} {c : Char} (h : text.toList.head? = some c)
    (hc : c ≠ 'e') : NoMissingDigits text := by
  rintro radix rfl
  have hhead : (Fault.missingDigits radix).text.toList.head? = some 'e' :=
    head?_toList_append (head?_toList_append (by decide) _) _
  rw [hhead] at h
  exact hc (Option.some.inj h).symm

theorem Fault.noMissingDigits {fault : Fault} (h : ∀ radix, fault ≠ .missingDigits radix) :
    NoMissingDigits fault.text := by
  cases fault with
  | missingDigits radix => exact absurd rfl (h radix)
  | strayCharacter c | unknownEscape c =>
    exact noMissingDigits_of_head? (c := 'i')
      (head?_toList_append (head?_toList_append (by decide) _) _) (by decide)
  | strayDigit c radix setting =>
    exact noMissingDigits_of_head? (c := 'i')
      (head?_toList_append (head?_toList_append (head?_toList_append (head?_toList_append
        (head?_toList_append (by decide) _) _) _) _) _) (by decide)
  | secondPoint radix setting =>
    exact noMissingDigits_of_head? (c := 'm')
      (head?_toList_append (head?_toList_append (head?_toList_append (by decide) _) _) _)
      (by decide)
  | unexpectedEnd => exact noMissingDigits_of_head? (c := 'u') (by decide) (by decide)
  | emptyCharLiteral => exact noMissingDigits_of_head? (c := 'c') (by decide) (by decide)
  | crowdedCharLiteral => exact noMissingDigits_of_head? (c := 't') (by decide) (by decide)

theorem Oversize.noMissingDigits (w : Oversize) : NoMissingDigits w.message.text :=
  noMissingDigits_of_head? (c := 'n') (head?_toList_append (head?_toList_append (by decide) _) _)
    (by decide)

/-! ## 3. Numerals and escapes -/

/-- The first misplaced character is one of the text, at its offset. -/
theorem misplaced_of_digitsFrom {setting : Setting} {radix : Radix} {pointed : Bool} {offset : Nat}
    {cs : List Char} {m : Misplaced}
    (h : Numeral.digitsFrom setting radix pointed offset cs = .error m) :
    ∃ before c behind, cs = before ++ c :: behind ∧ m.offset = offset + width before ∧
      ∀ radix', m.fault ≠ .missingDigits radix' := by
  induction cs generalizing pointed offset with
  | nil => cases h
  | cons c cs ih =>
    have hbehind : ∀ {pointed}, Numeral.digitsFrom setting radix pointed (offset + c.utf8Size) cs =
        .error m → ∃ before d behind, c :: cs = before ++ d :: behind ∧
          m.offset = offset + width before ∧ ∀ radix', m.fault ≠ .missingDigits radix' := by
      intro pointed h
      obtain ⟨before, d, behind, rfl, hoffset, hfault⟩ := ih h
      refine ⟨c :: before, d, behind, rfl, ?_, hfault⟩
      rw [hoffset, width_cons, Nat.add_assoc]
    have hhere : ∀ {fault : Fault}, (∀ radix', fault ≠ .missingDigits radix') →
        m = ⟨fault, offset⟩ → ∃ before d behind, c :: cs = before ++ d :: behind ∧
          m.offset = offset + width before ∧ ∀ radix', m.fault ≠ .missingDigits radix' := by
      rintro fault hfault rfl
      exact ⟨[], c, cs, rfl, rfl, hfault⟩
    rw [Numeral.digitsFrom] at h
    split at h
    · cases hrest : Numeral.digitsFrom setting radix pointed (offset + c.utf8Size) cs with
      | ok digits =>
        rw [hrest] at h
        cases h
      | error m' =>
        rw [hrest] at h
        cases h
        exact hbehind hrest
    · split at h
      · split at h
        · cases h
          exact hhere (fun _ => Fault.noConfusion) rfl
        · exact hbehind h
      · split at h
        · exact hbehind h
        · cases h
          exact hhere (fun _ => Fault.noConfusion) rfl

/-- The misplaced character of a numeral within ASCII stands at its offset. -/
theorem misplaced_of_parse {setting : Setting} {text : List Char} {m : Misplaced}
    (hascii : ∀ c ∈ text, c.toNat < 128) (h : Numeral.parse setting text = .error m) :
    ∃ before c behind, text = before ++ c :: behind ∧ m.offset = width before ∧
      ∀ radix, m.fault ≠ .missingDigits radix := by
  obtain ⟨⟨radix, ahead⟩, hsplit⟩ : ∃ split, setting.split text = split := ⟨_, rfl⟩
  unfold Numeral.parse at h
  rw [hsplit] at h
  cases hdigits : Numeral.digitsFrom setting radix false ahead (text.drop ahead) with
  | ok digits =>
    dsimp only at h
    rw [hdigits] at h
    cases h
  | error m' =>
    dsimp only at h
    rw [hdigits] at h
    cases h
    obtain ⟨before, c, behind, hdrop, hoffset, hfault⟩ := misplaced_of_digitsFrom hdigits
    have hlt : ahead < text.length := by
      refine Nat.lt_of_not_le fun hle => ?_
      rw [List.drop_eq_nil_of_le hle] at hdrop
      exact absurd hdrop.symm (List.append_ne_nil_of_right_ne_nil before (List.cons_ne_nil c behind))
    have hahead : width (text.take ahead) = ahead := by
      rw [width_of_lt fun c hc => hascii c (List.mem_of_mem_take hc),
        List.length_take_of_le (Nat.le_of_lt hlt)]
    refine ⟨text.take ahead ++ before, c, behind, ?_, ?_, hfault⟩
    · rw [List.append_assoc, ← hdrop, List.take_append_drop]
    · rw [hoffset, width_append, hahead]

namespace Reports

/-- A numeral that cannot be read is reported at its first misplaced character. -/
theorem numeral {setting : Setting} {front text rest : List Char}
    (hsource : source = front ++ text ++ rest) (hascii : ∀ c ∈ text, c.toNat < 128) :
    Reports (PointsAt source) (Numeral.read setting (width front) text) := by
  unfold Numeral.read
  split
  · exact reports_pure _
  · next m hm =>
    obtain ⟨before, c, behind, rfl, hoffset, hfault⟩ := misplaced_of_parse hascii hm
    rw [hoffset]
    exact reports_fail (.character hsource (Fault.noMissingDigits hfault))

variable {front cs : List Char}

/-- A numeric escape is reported as a whole if its number is too large, and up to where digits are
    missing if there are none. -/
theorem numeric {radix : Radix} {selector behind : List Char}
    (hsource : source = front ++ '\\' :: (selector ++ behind))
    (hselector : width selector = selector.length)
    (hparse : ∀ run, run ≠ [] → (∀ c ∈ run, radix.isDigit c = true) →
      Numeral.parse .escapeCode ('\\' :: (selector ++ run)) = .ok (Numeral.ofDigits radix run)) :
    Reports (PointsAt source)
      (Escape.numeric (width front) (some '\\') radix selector behind) := by
  have hsize : '\\'.utf8Size = 1 := rfl
  obtain ⟨run, rest, rfl, htake, hrun⟩ := exists_longestRun radix.isDigit behind
  unfold Escape.numeric
  dsimp only
  rw [htake]
  split
  · next hempty =>
    obtain rfl : run = [] := List.isEmpty_iff.mp hempty
    have htaken : width ('\\' :: selector) = selector.length + 1 := by
      rw [width_cons, hselector, hsize, Nat.add_comm]
    have hplace : source = front ++ ('\\' :: selector) ++ rest := by
      rw [hsource, List.append_assoc]
      rfl
    have hpoints := PointsAt.digits radix hplace (List.cons_ne_nil '\\' selector)
    rw [htaken] at hpoints
    exact reports_fail hpoints
  · next hempty =>
    have hne : run ≠ [] := fun hnil => hempty (List.isEmpty_iff.mpr hnil)
    have hlength : width front + 1 + (selector.length + run.length) - width front =
        width ([] ++ '\\' :: (selector ++ run)) := by
      rw [List.nil_append, width_cons, width_append, hselector, hsize,
        width_of_lt fun c hc => Radix.toNat_lt_of_isDigit (hrun.accepted c hc)]
      omega
    rw [show Escape.written (some '\\') (selector ++ run) = '\\' :: (selector ++ run) from rfl,
      hparse run hne hrun.accepted]
    dsimp only
    split
    · have hwhole : source = front ++ ([] ++ '\\' :: (selector ++ run)) ++ rest := by
        rw [hsource, List.append_assoc, List.nil_append, List.cons_append, List.append_assoc]
      rw [hlength]
      exact reports_bind_pure (reports_warn (.character hwhole (Oversize.noMissingDigits _))) _
    · exact reports_pure _

/-- An escape reports of itself, and of the character behind the backslash if it begins none. -/
theorem escape (hsource : source = front ++ '\\' :: cs) :
    Reports (PointsAt source) (Escape.read (width front) (some '\\') cs) := by
  cases cs with
  | nil =>
    have hplace : source = front ++ ['\\'] ++ [] := by rw [hsource, List.append_nil]
    exact reports_fail (.ending hplace (List.cons_ne_nil _ _) (by simp))
  | cons c cs =>
    unfold Escape.read
    dsimp only
    split
    · exact reports_pure _
    split
    · exact reports_pure _
    split
    · exact numeric hsource rfl fun _ => Numeral.parse_decimal
    split
    · next radix hradix =>
      have hsize : width [c] = 1 := utf8Size_of_lt (Radix.toNat_lt_of_ofEscapeLetter? hradix)
      exact numeric hsource hsize fun _ _ => Numeral.parse_selected hradix
    · have hlength : 1 + c.utf8Size = width (['\\'] ++ [c]) := rfl
      have hwhole : source = front ++ (['\\'] ++ [c]) ++ cs := by
        rw [hsource, List.append_assoc]
        rfl
      rw [hlength]
      exact reports_fail (.character hwhole (Fault.noMissingDigits fun _ => Fault.noConfusion))

end Reports

/-! ## 4. Literals -/

section Literals

variable {quote : Quote} {start offset : Nat} {cs : List Char}

/-- A decoded character is written at a character of the literal. -/
theorem offset_of_mem_contents {l : Literal} {d : Decoded}
    (h : (Literal.body quote start offset cs).outcome = .ok l) (hd : d ∈ l.contents) :
    ∃ before c behind, cs.take l.count = before ++ c :: behind ∧
      d.offset = offset + width before := by
  fun_induction Literal.body quote start offset cs generalizing l with
  | case1 => cases h
  | case2 =>
    cases h
    exact absurd hd List.not_mem_nil
  | case3 => cases h
  | case4 offset cs hmark hend ih =>
    obtain ⟨e, hescape, h⟩ := Stage.bind_eq_ok h
    obtain ⟨l', hbody, h⟩ := Stage.bind_eq_ok h
    cases h
    obtain ⟨-, hstop⟩ := Escape.stop_of_read hescape
    have htake : ('\\' :: cs).take (1 + e.count + l'.count) =
        '\\' :: cs.take e.count ++ (cs.drop e.count).take l'.count := by
      rw [Nat.add_comm 1, Nat.add_right_comm, List.take_succ_cons, List.take_add, List.cons_append]
    show ∃ before c behind, ('\\' :: cs).take (1 + e.count + l'.count) = _ ∧ _
    rw [htake]
    rcases List.mem_append.mp hd with hd | hd
    · obtain ⟨c, -, rfl⟩ := List.mem_map.mp hd
      exact ⟨[], '\\', _, rfl, rfl⟩
    · obtain ⟨before, c, behind, hrest, hoffset⟩ := ih e hbody hd
      refine ⟨'\\' :: cs.take e.count ++ before, c, behind, ?_, ?_⟩
      · rw [hrest, List.append_assoc]
      · have hsize : '\\'.utf8Size = 1 := rfl
        rw [hoffset, hstop, width_append, width_cons, hsize]
        omega
  | case5 offset c cs hmark hend hescape ih =>
    obtain ⟨l', hbody, h⟩ := Stage.bind_eq_ok h
    cases h
    show ∃ before d behind, (c :: cs).take (1 + l'.count) = _ ∧ _
    rw [Nat.add_comm 1, List.take_succ_cons]
    rcases List.mem_cons.mp hd with rfl | hd
    · exact ⟨[], c, _, rfl, rfl⟩
    · obtain ⟨before, d, behind, hrest, hoffset⟩ := ih hbody hd
      refine ⟨c :: before, d, behind, ?_, ?_⟩
      · rw [hrest, List.cons_append]
      · rw [hoffset, width_cons, Nat.add_assoc]

/-- A literal that is not closed is reported from its mark to where it breaks off. -/
theorem Reports.unclosed {front taken rest : List Char} (hsource : source = front ++ taken ++ rest)
    (hne : taken ≠ []) (hrest : ∀ c, rest.head? = some c → c = '\x00') :
    Reports (PointsAt source) (Literal.unclosed (width front) (width (front ++ taken))) := by
  unfold Literal.unclosed
  rw [width_append, Nat.add_sub_cancel_left]
  exact reports_fail (.ending hsource hne hrest)

/-- **A literal reports of its escapes, and of itself if it is not closed.** The part of it that is
    read already is `taken`. -/
theorem Reports.body {front taken : List Char} (hsource : source = front ++ taken ++ cs)
    (hne : taken ≠ []) :
    Reports (PointsAt source)
      (Literal.body quote (width front) (width (front ++ taken)) cs) := by
  generalize hstart : width front = start
  generalize hoffset : width (front ++ taken) = offset
  fun_induction Literal.body quote start offset cs generalizing taken with
  | case1 =>
    subst hstart hoffset
    exact Reports.unclosed hsource hne (by simp)
  | case2 => exact reports_pure _
  | case3 offset cs hmark =>
    subst hstart hoffset
    refine Reports.unclosed hsource hne fun c hc => ?_
    exact (Option.some.inj hc).symm
  | case4 offset cs hmark hend ih =>
    subst hoffset
    refine reports_bind (Reports.escape hsource) fun e he => ?_
    obtain ⟨-, hstop⟩ := Escape.stop_of_read he
    have htaken : source = front ++ (taken ++ '\\' :: cs.take e.count) ++ cs.drop e.count := by
      rw [hsource, List.append_assoc, List.append_assoc, List.append_assoc, List.cons_append,
        List.take_append_drop]
    refine reports_bind_pure (ih e htaken (List.append_ne_nil_of_left_ne_nil hne _) ?_) _
    have hsize : '\\'.utf8Size = 1 := rfl
    rw [hstop, ← List.append_assoc, width_append, width_cons, hsize]
    omega
  | case5 offset c cs hmark hend hescape ih =>
    subst hoffset
    have htaken : source = front ++ (taken ++ [c]) ++ cs := by
      rw [hsource, List.append_assoc, List.append_assoc, List.append_assoc, List.singleton_append]
    refine reports_bind_pure (ih htaken (List.append_ne_nil_of_left_ne_nil hne _) ?_) _
    rw [← List.append_assoc, width_append, width_cons, width_nil, Nat.add_zero]

/-- A char literal that does not stand for one character is reported as a whole, at its second
    character or behind its mark. -/
theorem Reports.ofCharLiteral {front cs : List Char} {l : Literal}
    (hsource : source = front ++ Quote.char.mark :: cs)
    (hl : (Literal.body .char (width front) (width front + 1) cs).outcome = .ok l) :
    Reports (PointsAt source) (Piece.ofCharLiteral (width front) l) := by
  have hinside : Piece.Inside (width front) Quote.char.mark cs ⟨none, l.count, l.stop⟩ :=
    Piece.inside_of_literal hl rfl rfl
  have hlength : l.stop - width front = width (Quote.char.mark :: cs.take l.count) := by
    rw [show l.stop = width front + _ from hinside.stop_eq, Nat.add_sub_cancel_left]
  have hwhole : source = front ++ (Quote.char.mark :: cs.take l.count) ++ cs.drop l.count := by
    rw [hsource, List.append_assoc, List.cons_append, List.take_append_drop]
  have hsize : Quote.char.mark.utf8Size = 1 := rfl
  have hpoint : ∀ {fault : Fault} {before behind : List Char} {c : Char},
      (∀ radix, fault ≠ .missingDigits radix) → cs.take l.count = before ++ c :: behind →
        PointsAt source ⟨fault.text, .error,
          .clamped (width front) (l.stop - width front) (1 + width before)⟩ := by
    intro fault before behind c hfault htake
    have htext : Quote.char.mark :: cs.take l.count = (Quote.char.mark :: before) ++ c :: behind := by
      rw [htake, List.cons_append]
    rw [hlength, htext, ← hsize, ← width_cons]
    exact .character (htext ▸ hwhole) (Fault.noMissingDigits hfault)
  unfold Piece.ofCharLiteral
  dsimp only
  split
  · refine reports_fail ?_
    obtain ⟨text, rest, hcs, hcount, -⟩ := spells_of_body hl
    have htake : cs.take l.count = text ++ [Quote.char.mark] := by
      rw [hcs, hcount, List.take_length_add_append]
      rfl
    obtain ⟨c, behind, hbehind⟩ := List.exists_cons_of_ne_nil
      (List.append_ne_nil_of_right_ne_nil text (List.cons_ne_nil Quote.char.mark []))
    have hfirst : cs.take l.count = [] ++ c :: behind := htake.trans hbehind
    exact hpoint (fun _ => Fault.noConfusion) hfirst
  · exact reports_pure _
  · next first second others hcontents =>
    have hmem : second ∈ l.contents := by
      rw [hcontents]
      exact List.mem_cons_of_mem _ List.mem_cons_self
    obtain ⟨before, c, behind, htake, hoffset⟩ := offset_of_mem_contents hl hmem
    have hpointer : second.offset - width front = 1 + width before := by omega
    rw [hpointer]
    exact reports_fail (hpoint (fun _ => Fault.noConfusion) htake)

end Literals

/-! ## 5. Pieces and tokens -/

namespace Reports

/-- A piece reports of itself and of what is in it. -/
theorem piece {front cs : List Char} {c : Char} (hsource : source = front ++ c :: cs) :
    Reports (PointsAt source) (Piece.read (width front) c cs) := by
  have hmark : ∀ quote : Quote, c = quote.mark → ∀ {β} {next : Literal → Stage β},
      (∀ l, (Literal.body quote (width front) (width front + 1) cs).outcome = .ok l →
        Reports (PointsAt source) (next l)) →
      Reports (PointsAt source)
        (Literal.body quote (width front) (width front + 1) cs >>= next) := by
    intro quote hquote β next hnext
    have hsize : width [quote.mark] = 1 := by cases quote <;> rfl
    have hbody : Reports (PointsAt source)
        (Literal.body quote (width front) (width (front ++ [quote.mark])) cs) := by
      refine body ?_ (List.cons_ne_nil _ _)
      rw [hsource, hquote, List.append_assoc, List.singleton_append]
    rw [width_append, hsize] at hbody
    exact reports_bind hbody hnext
  refine Piece.read_cases
    (motive := fun read => Reports (PointsAt source) (read (width front) cs)) c
    ?spaces ?comment ?charMark ?stringMark ?numeral ?identifier ?operator ?punctuation ?stray
  case charMark =>
    intro hc
    exact hmark .char hc fun l hl => ofCharLiteral (hc ▸ hsource) hl
  case stringMark =>
    intro hc
    exact hmark .string hc fun l _ => reports_pure _
  case numeral =>
    intro hdigit
    have htext : source =
        front ++ (c :: cs.takeWhile continuesNumeral) ++ cs.dropWhile continuesNumeral := by
      rw [hsource, List.append_assoc, List.cons_append, List.takeWhile_append_dropWhile]
    refine reports_bind_pure (numeral htext fun d hd => ?_) _
    rcases List.mem_cons.mp hd with rfl | hd
    · exact toNat_lt_of_isDigit hdigit
    · exact toNat_lt_of_continuesNumeral (List.all_eq_true.mp List.all_takeWhile d hd)
  case stray =>
    have hwhole : source = front ++ ([] ++ [c]) ++ cs := by
      rw [hsource, List.nil_append, List.append_assoc, List.singleton_append]
    exact reports_fail (.character hwhole (Fault.noMissingDigits fun _ => Fault.noConfusion))
  all_goals exact fun _ => reports_pure _

/-- **All messages of a pass point at their text.** -/
theorem tokensFrom {front cs : List Char} (hsource : source = front ++ cs) :
    Reports (PointsAt source) (tokensFrom (width front) cs) := by
  generalize hstart : width front = start
  fun_induction SourceScan.tokensFrom start cs generalizing front with
  | case1 => exact reports_pure _
  | case2 start c cs ih =>
    subst hstart
    refine reports_bind (piece hsource) fun p hp => ?_
    rcases Piece.inside_of_read hp with hinside | ⟨-, -, rfl⟩
    · have htaken : source = (front ++ c :: cs.take p.count) ++ cs.drop p.count := by
        rw [hsource, List.append_assoc, List.cons_append, List.take_append_drop]
      refine reports_bind_pure (ih p htaken ?_) _
      rw [width_append, hinside.stop_eq]
    · -- behind a comment at the end of the text there is nothing to report of
      rw [List.drop_eq_nil_of_le (Nat.le_succ _), SourceScan.tokensFrom]
      exact reports_pure _

end Reports

/-! ## 6. Where the stretches lie -/

/-- A message whose stretch begins in a text and whose pointer is in the stretch and in the text. The
    stretch may go one byte past the end, where a literal, an escape or a digit is missing. -/
structure Message.PointsInto (source : List Char) (m : Message) : Prop where
  start_lt : m.position.start < width source
  length_pos : 1 ≤ m.position.length
  pointer_lt : m.position.pointer < m.position.length
  target_le : m.position.target ≤ width source
  stop_le : m.position.stop ≤ width source + 1
  start_boundary : IsBoundary source m.position.start
  target_boundary : IsBoundary source m.position.target
  past_end : m.position.stop = width source + 1 →
    m.severity = .error ∧ m.position.target = width source ∧
      (m.text = Fault.unexpectedEnd.text ∨ ∃ radix, m.text = (Fault.missingDigits radix).text)

section Stretches

variable {m : Message}

theorem width_pos_of_ne_nil {cs : List Char} (h : cs ≠ []) : 0 < width cs :=
  Nat.lt_of_lt_of_le (List.length_pos_iff.mpr h) (length_le_width cs)

/-- A stretch that goes one byte on from whole characters lies in the text but for that byte. -/
theorem pointsInto_of_place {front taken rest : List Char} {text : String}
    (hsource : source = front ++ taken ++ rest) (hne : taken ≠ [])
    (htext : text = Fault.unexpectedEnd.text ∨ ∃ radix, text = (Fault.missingDigits radix).text) :
    Message.PointsInto source
      ⟨text, .error, .clamped (width front) (width taken + 1) (width taken)⟩ := by
  have hpos := width_pos_of_ne_nil hne
  have hwidth : width source = width front + width taken + width rest := by
    rw [hsource, width_append, width_append]
  have htarget : (Position.clamped (width front) (width taken + 1) (width taken)).target =
      width (front ++ taken) := by
    rw [width_append]
    show width front + min (width taken) (width taken + 1) = _
    omega
  exact {
    start_lt := show width front < width source by omega
    length_pos := Nat.le_add_left ..
    pointer_lt := show min (width taken) (width taken + 1) < width taken + 1 by omega
    target_le := by
      rw [htarget, width_append]
      omega
    stop_le := show width front + (width taken + 1) ≤ width source + 1 by omega
    start_boundary := by
      rw [hsource, List.append_assoc]
      exact isBoundary_width front _
    target_boundary := by
      rw [htarget, hsource]
      exact isBoundary_width (front ++ taken) rest
    past_end := by
      intro hstop
      have hend : width front + (width taken + 1) = width source + 1 := hstop
      refine ⟨rfl, ?_, htext⟩
      rw [htarget, width_append]
      omega }

theorem pointsInto_of_pointsAt (h : PointsAt source m) : m.PointsInto source := by
  cases h with
  | @character text severity front before behind rest c hsource htext =>
    have hpos := c.utf8Size_pos
    have hlength : width (before ++ c :: behind) = width before + (c.utf8Size + width behind) := by
      rw [width_append, width_cons]
    have hwidth : width source = width front + width (before ++ c :: behind) + width rest := by
      rw [hsource, width_append, width_append]
    have htarget : (Position.clamped (width front) (width (before ++ c :: behind))
        (width before)).target = width (front ++ before) := by
      show width front + min (width before) (width (before ++ c :: behind)) = _
      rw [Nat.min_eq_left (by omega), width_append]
    exact {
      start_lt := show width front < width source by omega
      length_pos := show 1 ≤ width (before ++ c :: behind) by omega
      pointer_lt := show min (width before) (width (before ++ c :: behind)) <
        width (before ++ c :: behind) by omega
      target_le := by
        rw [htarget, width_append]
        omega
      stop_le := show width front + width (before ++ c :: behind) ≤ width source + 1 by omega
      start_boundary := by
        rw [hsource, List.append_assoc]
        exact isBoundary_width front _
      target_boundary := by
        rw [htarget, hsource, List.append_assoc, List.append_assoc, ← List.append_assoc front]
        exact isBoundary_width (front ++ before) _
      past_end := by
        intro hstop
        have hend : width front + width (before ++ c :: behind) = width source + 1 := hstop
        omega }
  | ending hsource hne hrest => exact pointsInto_of_place hsource hne (.inl rfl)
  | digits radix hsource hne => exact pointsInto_of_place hsource hne (.inr ⟨radix, rfl⟩)

/-- What a warning is about is in the text. -/
theorem stop_le_of_pointsAt (h : PointsAt source m) (hwarning : m.severity = .warning) :
    m.position.stop ≤ width source := by
  cases h with
  | @character text severity front before behind rest c hsource htext =>
    show width front + width (before ++ c :: behind) ≤ width source
    rw [hsource, ← width_append, width_append _ rest]
    exact Nat.le_add_right ..
  | ending => cases hwarning
  | digits => cases hwarning

/-- What a pass adds to a log is what it reports of its text. -/
theorem pointsAt_of_tokenize {log : Log} {added : List Message}
    (h : (tokenize source log).1.messages = log.messages ++ added) (hm : m ∈ added) :
    PointsAt source m := by
  rw [messages_tokenize] at h
  rw [← List.append_cancel_left h] at hm
  exact Reports.tokensFrom (List.nil_append source).symm m hm

/-- **Every message of a pass points into its text.** -/
theorem pointsInto_of_tokenize {log : Log} {added : List Message}
    (h : (tokenize source log).1.messages = log.messages ++ added) (hm : m ∈ added) :
    m.PointsInto source :=
  pointsInto_of_pointsAt (pointsAt_of_tokenize h hm)

/-- In `"é\o` the stretch of the missing digits goes one byte past the end. -/
theorem pointsInto_of_tokenize_selector :
    (tokenize ['"', 'é', '\\', 'o'] .empty).1.messages = Log.empty.messages ++
        [⟨"expected digits in octal escape code", .error, .clamped 3 3 2⟩] ∧
      Message.PointsInto ['"', 'é', '\\', 'o']
        ⟨"expected digits in octal escape code", .error, .clamped 3 3 2⟩ :=
  have h : (tokenize ['"', 'é', '\\', 'o'] .empty).1.messages = Log.empty.messages ++
      [⟨"expected digits in octal escape code", .error, .clamped 3 3 2⟩] := by decide +kernel
  ⟨h, pointsInto_of_tokenize h (List.mem_singleton_self _)⟩

/-- A message about digits that are missing in front of a character of several bytes. -/
def Message.MissesDigitsAheadOf (source : List Char) (m : Message) : Prop :=
  (∃ radix, m.text = (Fault.missingDigits radix).text) ∧
    ∃ c, charAt? source m.position.target = some c ∧ 1 < c.utf8Size

/-- One byte behind characters a text may be cut if what stands there is one byte, or nothing. -/
theorem isBoundary_place_iff {front taken rest : List Char}
    (hsource : source = front ++ taken ++ rest) :
    IsBoundary source (min (width front + (width taken + 1)) (width source)) ↔
      ∀ c, rest.head? = some c → c.utf8Size = 1 := by
  rw [← Nat.add_assoc, ← width_append]
  cases rest with
  | nil =>
    rw [List.append_nil] at hsource
    rw [hsource, Nat.min_eq_right (Nat.le_succ _)]
    have hend := isBoundary_width (front ++ taken) []
    rw [List.append_nil] at hend
    exact iff_of_true hend fun c hc => nomatch hc
  | cons c rest =>
    have hpos := c.utf8Size_pos
    have hle : width (front ++ taken) + 1 ≤ width source := by
      rw [hsource, width_append (front ++ taken), width_cons]
      omega
    rw [Nat.min_eq_left hle, hsource, isBoundary_width_add_one_iff]
    exact ⟨fun hsize d hd => Option.some.inj hd ▸ hsize, fun hsize => hsize c rfl⟩

theorem isBoundary_stop_of_pointsAt (h : PointsAt source m) :
    IsBoundary source (min m.position.stop (width source)) ↔ ¬ m.MissesDigitsAheadOf source := by
  cases h with
  | @character text severity front before behind rest c hsource htext =>
    refine iff_of_true ?_ fun ⟨⟨radix, hradix⟩, _⟩ => htext radix hradix
    show IsBoundary source (min (width front + width (before ++ c :: behind)) (width source))
    rw [hsource, ← width_append, width_append (front ++ (before ++ c :: behind)) rest,
      Nat.min_eq_left (Nat.le_add_right ..)]
    exact isBoundary_width _ rest
  | @ending front taken rest hsource hne hrest =>
    have hother : NoMissingDigits Fault.unexpectedEnd.text :=
      Fault.noMissingDigits fun _ => Fault.noConfusion
    refine iff_of_true ?_ fun ⟨⟨radix, hradix⟩, _⟩ => hother radix hradix
    refine (isBoundary_place_iff hsource).mpr fun c hc => ?_
    rw [hrest c hc]
    rfl
  | @digits front taken rest radix hsource hne =>
    have htarget : (Position.clamped (width front) (width taken + 1) (width taken)).target =
        width (front ++ taken) := by
      rw [width_append]
      exact congrArg (width front + ·) (Nat.min_eq_left (Nat.le_succ _))
    have hchar : charAt? source (width (front ++ taken)) = rest.head? := by
      rw [hsource]
      exact charAt?_of_tailAt (tailAt_width_append ..)
    refine (isBoundary_place_iff hsource).trans ⟨?_, fun hwhole c hc => ?_⟩
    · rintro hsize ⟨-, c, hc, hlt⟩
      rw [htarget, hchar] at hc
      exact absurd (hsize c hc) (Nat.ne_of_gt hlt)
    · refine Nat.le_antisymm (Nat.le_of_not_lt fun hlt => ?_) c.utf8Size_pos
      exact hwhole ⟨⟨radix, rfl⟩, c, by rw [htarget, hchar, hc], hlt⟩

/-- **The stretch of a message ends between characters, but for missing digits ahead of a character
    of several bytes**, which the stretch takes one byte of. -/
theorem isBoundary_stop_iff {log : Log} {added : List Message}
    (h : (tokenize source log).1.messages = log.messages ++ added) (hm : m ∈ added) :
    IsBoundary source (min m.position.stop (width source)) ↔ ¬ m.MissesDigitsAheadOf source :=
  isBoundary_stop_of_pointsAt (pointsAt_of_tokenize h hm)

/-- The stretch of `"é` takes both bytes of `é`, although the literal is not closed. -/
theorem isBoundary_stop_iff_unclosed :
    (tokenize ['"', 'é'] .empty).1.messages = Log.empty.messages ++
        [⟨"unexpected EOF", .error, .clamped 0 4 3⟩] ∧
      (IsBoundary ['"', 'é'] (min 4 (width ['"', 'é'])) ↔
        ¬ Message.MissesDigitsAheadOf ['"', 'é']
          ⟨"unexpected EOF", .error, .clamped 0 4 3⟩) :=
  have h : (tokenize ['"', 'é'] .empty).1.messages = Log.empty.messages ++
      [⟨"unexpected EOF", .error, .clamped 0 4 3⟩] := by decide +kernel
  ⟨h, isBoundary_stop_iff h (List.mem_singleton_self _)⟩

/-- The stretch of the digits that `"\xé"` lacks takes one byte of `é`. -/
theorem not_isBoundary_stop_selector :
    ∃ m ∈ (tokenize ['"', '\\', 'x', 'é', '"'] .empty).1.messages,
      m.text = "expected digits in hexadecimal escape code" ∧ m.position.stop = 4 ∧
        charAt? ['"', '\\', 'x', 'é', '"'] 3 = some 'é' ∧
        ¬ IsBoundary ['"', '\\', 'x', 'é', '"']
          (min m.position.stop (width ['"', '\\', 'x', 'é', '"'])) :=
  ⟨⟨"expected digits in hexadecimal escape code", .error, .clamped 1 3 2⟩, by decide +kernel⟩

end Stretches

end SourceScan
