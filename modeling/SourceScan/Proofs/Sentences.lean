import SourceScan.Numeral.Grammar
import SourceScan.Proofs.Pointing
import SourceScan.SourceUnit

/-!
# Proofs/Sentences.lean -- every message is one printable line

A message may speak of a character of the text, and a text may hold any. Two sentences quote their
character; the one about a misplaced character of a numeral shows it as it is. It can: what a
numeral is cut from is ASCII that has a shape, and the digits of an escape are digits.

* `Printable`: a text without a control character.
* `Fault.printable_text`, `Oversize.printable_text`: the sentences of a stage.
* `Reports.printable_numeral` up to `Reports.printable_tokensFrom`: no stage reports a control
  character, each from what it reads.
* **`printable_of_tokenize`**: the messages of a pass are printable, their headers one line each.
-/

namespace SourceScan

open Text Alphabet

/-! ## 1. Printable texts -/

/-- A text without a control character. -/
def Printable (cs : List Char) : Prop :=
  ∀ c ∈ cs, isControl c = false

/-- A message whose sentence is printable. -/
def Message.IsPrintable (m : Message) : Prop :=
  Printable m.text.toList

instance (cs : List Char) : Decidable (Printable cs) :=
  List.decidableBAll (fun c => isControl c = false) cs

theorem Printable.append {as bs : List Char} (ha : Printable as) (hb : Printable bs) :
    Printable (as ++ bs) := fun c hc =>
  (List.mem_append.mp hc).elim (ha c) (hb c)

theorem Printable.cons {c : Char} {cs : List Char} (hc : isControl c = false) (h : Printable cs) :
    Printable (c :: cs) :=
  List.forall_mem_cons.mpr ⟨hc, h⟩

theorem Printable.singleton {c : Char} (h : isControl c = false) : Printable [c] :=
  List.forall_mem_singleton.mpr h

theorem Printable.newline_notMem {cs : List Char} (h : Printable cs) : '\n' ∉ cs :=
  fun hmem => absurd (h '\n' hmem) (by decide)

/-- Digits are printable, in any radix. -/
theorem Radix.isControl_of_isDigit {radix : Radix} :
    ∀ c : Char, radix.isDigit c = true → isControl c = false := by
  refine forall_of_ascii (fun c hc h => ?_) (by cases radix <;> decide +kernel)
  exact absurd (Radix.toNat_lt_of_isDigit h) (Nat.not_lt.mpr hc)

/-- The characters that a numeral goes on with are printable. -/
theorem isControl_of_continuesNumeral :
    ∀ c : Char, continuesNumeral c = true → isControl c = false := by
  refine forall_of_ascii (fun c hc h => ?_) (by decide +kernel)
  exact absurd (toNat_lt_of_continuesNumeral h) (Nat.not_lt.mpr hc)

theorem printable_shownChar (c : Char) : Printable (shownChar c) :=
  fun _ => isControl_of_mem_escaped (by simp [isControl])

/-- A listing shows numbers in printable characters. -/
theorem printable_shown (x : Binary32) : Printable x.shown := by
  intro c hc
  rcases Binary32.mem_shown hc with hdigit | hc
  · exact isControl_of_isDigit hdigit
  · exact (by decide : Printable ['-', '.', 'i', 'n', 'f', 'N', 'a']) c hc

/-! ## 2. Sentences -/

theorem printable_toList_append {s t : String} (hs : Printable s.toList)
    (ht : Printable t.toList) : Printable (s ++ t).toList := by
  rw [String.toList_append]
  exact hs.append ht

theorem printable_toList_ofList {cs : List Char} (h : Printable cs) :
    Printable (String.ofList cs).toList := by
  rwa [String.toList_ofList]

theorem Radix.printable_name (radix : Radix) : Printable radix.name.toList := by
  cases radix <;> decide

theorem Setting.printable_name (setting : Setting) : Printable setting.name.toList := by
  cases setting <;> decide

/-- A sentence about a fault is printable, unless it is about a control character in a numeral. -/
theorem Fault.printable_text {fault : Fault}
    (h : ∀ c radix setting, fault = .strayDigit c radix setting → isControl c = false) :
    Printable fault.text.toList := by
  have hopen : Printable "invalid character `".toList := by decide
  cases fault with
  | strayCharacter c | unknownEscape c =>
    have hc := printable_toList_ofList (printable_shownChar c)
    exact printable_toList_append (printable_toList_append hopen hc) (by decide)
  | missingDigits radix =>
    exact printable_toList_append (printable_toList_append (by decide) radix.printable_name)
      (by decide)
  | strayDigit c radix setting =>
    have hc := printable_toList_ofList (.singleton (h c radix setting rfl))
    exact printable_toList_append (printable_toList_append (printable_toList_append
      (printable_toList_append (printable_toList_append hopen hc) (by decide)) radix.printable_name)
      (by decide)) setting.printable_name
  | secondPoint radix setting =>
    exact printable_toList_append (printable_toList_append (printable_toList_append (by decide)
      radix.printable_name) (by decide)) setting.printable_name
  | unexpectedEnd | emptyCharLiteral | crowdedCharLiteral => decide

theorem Oversize.printable_text (w : Oversize) : w.message.IsPrintable :=
  printable_toList_append (printable_toList_append (by decide)
    (printable_toList_ofList (printable_shown w.value))) (by decide)

/-- The fault of a text that is no numeral is about one of its characters. -/
theorem fault_of_parse {setting : Setting} {text : List Char} {m : Misplaced}
    (h : Numeral.parse setting text = .error m) :
    ∃ radix, ∃ c ∈ text, m.fault = setting.misplaced radix c := by
  obtain ⟨ahead, radix, body, rfl, hopens⟩ := setting.exists_opens text
  rcases setting.mayHold_or_stray radix 1 body with hbody | ⟨front, c, rest, rfl, hfront, hc⟩
  · rw [Numeral.parse_of_mayHold hopens hbody] at h
    cases h
  · rw [Numeral.parse_of_stray hopens hfront hc] at h
    cases h
    exact ⟨radix, c, by simp, rfl⟩

theorem printable_of_parse {setting : Setting} {text : List Char} {m : Misplaced}
    (htext : Printable text) (h : Numeral.parse setting text = .error m) :
    Printable m.fault.text.toList := by
  obtain ⟨radix, c, hc, hfault⟩ := fault_of_parse h
  refine Fault.printable_text fun d radix' setting' heq => ?_
  rw [hfault, Setting.misplaced] at heq
  split at heq
  · cases heq
  · cases heq
    exact htext _ hc

/-! ## 3. Stages -/

namespace Reports

variable {start offset : Nat} {c : Char} {cs : List Char}

theorem printable_fail {α : Type} {fault : Fault} {position : Position} {stop : Nat}
    (h : ∀ c radix setting, fault ≠ .strayDigit c radix setting) :
    Reports Message.IsPrintable (Stage.fail fault position stop : Stage α) :=
  reports_fail (Fault.printable_text fun c radix setting heq => absurd heq (h c radix setting))

/-- A printable text is reported of in printable characters, numeral or not. -/
theorem printable_numeral {setting : Setting} {text : List Char} (h : Printable text) :
    Reports Message.IsPrintable (Numeral.read setting start text) := by
  unfold Numeral.read
  split
  · exact reports_pure _
  · next m hm => exact reports_fail (printable_of_parse h hm)

theorem printable_numeric {radix : Radix} {selector behind : List Char}
    (hselector : Printable selector) :
    Reports Message.IsPrintable (Escape.numeric start (some '\\') radix selector behind) := by
  have hrun : Printable (behind.takeWhile radix.isDigit) := fun c hc =>
    Radix.isControl_of_isDigit c (List.all_eq_true.mp List.all_takeWhile c hc)
  have hwritten : Printable
      (Escape.written (some '\\') (selector ++ behind.takeWhile radix.isDigit)) :=
    .cons (by decide) (hselector.append hrun)
  unfold Escape.numeric
  dsimp only
  split
  · exact printable_fail fun _ _ _ => Fault.noConfusion
  split
  · next m hm => exact reports_fail (printable_of_parse hwritten hm)
  · split
    · exact reports_bind_pure (reports_warn (Oversize.printable_text _)) _
    · exact reports_pure _

theorem printable_escape :
    Reports Message.IsPrintable (Escape.read start (some '\\') cs) := by
  cases cs with
  | nil => exact printable_fail fun _ _ _ => Fault.noConfusion
  | cons c cs =>
    unfold Escape.read
    dsimp only
    split
    · exact reports_pure _
    split
    · exact reports_pure _
    split
    · exact printable_numeric (List.forall_mem_nil _)
    split
    · next radix hradix =>
      have hletter : isControl c = false := by
        unfold Radix.ofEscapeLetter? at hradix
        split at hradix <;> first | rfl | cases hradix
      exact printable_numeric (.singleton hletter)
    · exact printable_fail fun _ _ _ => Fault.noConfusion

/-- A literal reports of its escapes and of its end. -/
theorem printable_body {quote : Quote} :
    Reports Message.IsPrintable (Literal.body quote start offset cs) := by
  fun_induction Literal.body quote start offset cs with
  | case1 => exact printable_fail fun _ _ _ => Fault.noConfusion
  | case2 => exact reports_pure _
  | case3 => exact printable_fail fun _ _ _ => Fault.noConfusion
  | case4 offset cs hmark hend ih =>
    exact reports_bind printable_escape fun e _ => reports_bind_pure (ih e) _
  | case5 offset c cs hmark hend hescape ih => exact reports_bind_pure ih _

/-- A piece reports of itself and of what is in it. -/
theorem printable_piece : Reports Message.IsPrintable (Piece.read start c cs) := by
  refine Piece.read_cases (motive := fun read => Reports Message.IsPrintable (read start cs)) c
    ?spaces ?comment ?charMark ?stringMark ?numeral ?identifier ?operator ?punctuation ?stray
  case charMark =>
    refine fun _ => reports_bind printable_body fun l _ => ?_
    unfold Piece.ofCharLiteral
    dsimp only
    split
    · exact printable_fail fun _ _ _ => Fault.noConfusion
    · exact reports_pure _
    · exact printable_fail fun _ _ _ => Fault.noConfusion
  case stringMark => exact fun _ => reports_bind_pure printable_body _
  case numeral =>
    intro hdigit
    refine reports_bind_pure (printable_numeral fun d hd => ?_) _
    rcases List.mem_cons.mp hd with rfl | hd
    · exact isControl_of_isDigit hdigit
    · exact isControl_of_continuesNumeral d (List.all_eq_true.mp List.all_takeWhile d hd)
  case stray => exact printable_fail fun _ _ _ => Fault.noConfusion
  all_goals exact fun _ => reports_pure _

/-- **No message of a pass has a control character.** -/
theorem printable_tokensFrom : Reports Message.IsPrintable (SourceScan.tokensFrom start cs) := by
  fun_induction SourceScan.tokensFrom start cs with
  | case1 => exact reports_pure _
  | case2 start c cs ih => exact reports_bind printable_piece fun p _ => reports_bind_pure (ih p) _

end Reports

/-! ## 4. Messages -/

/-- **The messages of a pass are printable, whatever the text holds**; so under a name without a
    newline the first line of a rendering is its header, and the excerpt is what follows. -/
theorem printable_of_tokenize {source : List Char} {log : Log} {added : List Message} {m : Message}
    (h : (tokenize source log).1.messages = log.messages ++ added) (hm : m ∈ added) :
    (∀ c ∈ m.text.toList, isControl c = false) ∧
      ∀ name : String, '\n' ∉ name.toList → ∀ options : Presentation,
        lines (m.rendered name source options) =
          (m.header name source).print options.color ::
            lines (m.printedExcerpt source options) := by
  have hprintable : m.IsPrintable := by
    rw [messages_tokenize] at h
    exact Reports.printable_tokensFrom m (List.append_cancel_left h ▸ hm)
  refine ⟨hprintable, fun name hname options => ?_⟩
  have hheader : '\n' ∉ (m.header name source).print options.color :=
    Painting.newline_notMem_print
      (Message.notMem_header rfl hname hprintable.newline_notMem source) options.color
  rw [Message.rendered, List.append_assoc, List.singleton_append, lines_append_newline hheader]

/-- A newline that begins no escape, in color. -/
theorem printable_of_tokenize_newline :
    (tokenize "'\\\n".toList .empty).1.messages = Log.empty.messages ++
        [⟨"invalid character `\\n` in escape code", .error, .clamped 1 2 1⟩] ∧
      '\n' ∉ "t".toList ∧
      (∀ c ∈ "invalid character `\\n` in escape code".toList, isControl c = false) ∧
      lines (Message.rendered ⟨"invalid character `\\n` in escape code", .error, .clamped 1 2 1⟩ "t"
        "'\\\n".toList ⟨true, 0⟩) =
        (Message.header ⟨"invalid character `\\n` in escape code", .error, .clamped 1 2 1⟩ "t"
          "'\\\n".toList).print true ::
          lines (Message.printedExcerpt ⟨"invalid character `\\n` in escape code", .error,
            .clamped 1 2 1⟩ "'\\\n".toList ⟨true, 0⟩) := by
  have hmessages : (tokenize "'\\\n".toList .empty).1.messages = Log.empty.messages ++
      [⟨"invalid character `\\n` in escape code", .error, .clamped 1 2 1⟩] := by decide +kernel
  have hname : '\n' ∉ "t".toList := by decide
  obtain ⟨hprintable, hlines⟩ := printable_of_tokenize hmessages (List.mem_singleton_self _)
  exact ⟨hmessages, hname, hprintable, hlines "t" hname ⟨true, 0⟩⟩

end SourceScan
