import Mathlib.Data.List.Forall2
import SourceScan.Proofs.ShownLines

/-!
# Proofs/Color.lean -- what color adds to a rendering

With color the same rendering is printed with escape sequences between its characters. A style is
opened ahead of a part that is not empty and reset behind it, so that without the sequences the plain
rendering is left, and no style is open where a row ends.

* `strip`: a text without its escape sequences.
* `Painted`: a text that is another with styles around parts of it, each of them reset; such a text
  strips to the other (`Painted.strip_eq`), and is empty or has a newline only if the other does.
* `Row.painted_face`, `lines_printedExcerpt`: rows are painted one by one.
* **`stripped_rendered`**: color adds escape sequences to a rendering, and nothing else.
-/

namespace SourceScan

open Text

/-! ## 1. Escape sequences -/

/-- A text without its escape sequences, each of them from U+001B up to the next `m`; `within` tells
    whether the text begins inside of one. -/
def stripFrom (within : Bool) : List Char → List Char
  | [] => []
  | c :: cs =>
    if within then stripFrom (c != 'm') cs
    else if c = '\x1b' then stripFrom true cs
    else c :: stripFrom false cs

/-- A text without its escape sequences. -/
def strip (cs : List Char) : List Char :=
  stripFrom false cs

theorem strip_cons {c : Char} (h : c ≠ '\x1b') (cs : List Char) : strip (c :: cs) = c :: strip cs := by
  unfold strip
  rw [stripFrom, if_neg Bool.false_ne_true, if_neg h]

theorem strip_append_of_notMem {as : List Char} (h : '\x1b' ∉ as) (bs : List Char) :
    strip (as ++ bs) = as ++ strip bs := by
  induction as with
  | nil => rfl
  | cons a as ih =>
    rw [List.cons_append, strip_cons (List.ne_of_not_mem_cons h).symm,
      ih (List.not_mem_of_not_mem_cons h), List.cons_append]

theorem strip_opening (style : Style) (cs : List Char) : strip (style.opening ++ cs) = strip cs := by
  cases style with
  | emphasis => rfl
  | severity s => cases s <;> rfl

theorem strip_reset (cs : List Char) : strip (Style.reset ++ cs) = strip cs := rfl

/-! ## 2. Painted texts -/

/-- A text that is a plain one with styles: every style opens ahead of some characters and is reset
    behind them, and beside that there are no escape sequences. -/
inductive Painted : List Char → List Char → Prop
  | nil : Painted [] []
  | bare {c : Char} {colored plain : List Char} (hc : c ≠ '\x1b') (hrest : Painted colored plain) :
      Painted (c :: colored) (c :: plain)
  | styled (style : Style) {text colored plain : List Char} (hne : text ≠ [])
      (htext : '\x1b' ∉ text) (hrest : Painted colored plain) :
      Painted (style.opening ++ text ++ Style.reset ++ colored) (text ++ plain)

theorem painted_of_notMem {cs : List Char} (h : '\x1b' ∉ cs) : Painted cs cs := by
  induction cs with
  | nil => exact .nil
  | cons c cs ih =>
    exact .bare (List.ne_of_not_mem_cons h).symm (ih (List.not_mem_of_not_mem_cons h))

theorem painted_flatMap {α : Type} {f g : α → List Char} {as : List α}
    (happend : ∀ a ∈ as, ∀ {colored plain}, Painted colored plain →
      Painted (f a ++ colored) (g a ++ plain)) : Painted (as.flatMap f) (as.flatMap g) := by
  induction as with
  | nil => exact .nil
  | cons a as ih =>
    rw [List.flatMap_cons, List.flatMap_cons]
    exact happend a List.mem_cons_self (ih fun b hb => happend b (List.mem_cons_of_mem a hb))

namespace Painted

variable {colored plain : List Char}

theorem append (h : Painted colored plain) {colored' plain' : List Char}
    (h' : Painted colored' plain') : Painted (colored ++ colored') (plain ++ plain') := by
  induction h with
  | nil => exact h'
  | bare hc _ ih => exact .bare hc ih
  | styled style hne htext _ ih =>
    rw [List.append_assoc, List.append_assoc _ _ plain']
    exact .styled style hne htext ih

/-- **Without the escape sequences a painted text is the plain one.** -/
theorem strip_eq (h : Painted colored plain) : strip colored = plain := by
  induction h with
  | nil => rfl
  | bare hc _ ih => rw [strip_cons hc, ih]
  | styled style _ htext _ ih =>
    rw [List.append_assoc, List.append_assoc, strip_opening, strip_append_of_notMem htext,
      strip_reset, ih]

theorem isEmpty_eq (h : Painted colored plain) : colored.isEmpty = plain.isEmpty := by
  cases h with
  | nil => rfl
  | bare => rfl
  | @styled style _ _ _ hne =>
    obtain ⟨c, cs, rfl⟩ := List.exists_cons_of_ne_nil hne
    cases style with
    | emphasis => rfl
    | severity s => cases s <;> rfl

/-- Styles take no rows of their own. -/
theorem newline_notMem (h : Painted colored plain) (hplain : '\n' ∉ plain) : '\n' ∉ colored := by
  induction h with
  | nil => exact hplain
  | bare _ _ ih =>
    rw [List.mem_cons, not_or] at hplain ⊢
    exact ⟨hplain.1, ih hplain.2⟩
  | styled style _ _ _ ih =>
    have hopening : '\n' ∉ style.opening := by
      cases style with
      | emphasis => decide
      | severity s => cases s <;> decide
    have hreset : '\n' ∉ Style.reset := by decide
    rw [List.mem_append, not_or] at hplain
    simp only [List.mem_append, not_or]
    exact ⟨⟨⟨hopening, hplain.1⟩, hreset⟩, ih hplain.2⟩

end Painted

theorem Stroke.painted_print {s : Stroke} (h : '\x1b' ∉ s.text) : Painted (s.print true) s.text := by
  obtain ⟨style, text⟩ := s
  cases style with
  | none => exact painted_of_notMem h
  | some style =>
    cases text with
    | nil => exact .nil
    | cons c cs =>
      have hstyled := Painted.styled style (List.cons_ne_nil c cs) h .nil
      rwa [List.append_nil, List.append_nil] at hstyled

/-- **A painting with color is what it says, painted.** -/
theorem Painting.painted_print {p : Painting} (h : '\x1b' ∉ p.text) :
    Painted (p.print true) (p.print false) := by
  rw [p.print_false]
  refine painted_flatMap fun s hs => (Stroke.painted_print fun hmem => h ?_).append
  exact List.mem_flatMap_of_mem hs hmem

/-! ## 3. Rows -/

/-- A row as it is printed, without its newline. -/
def Row.face (color : Bool) (width : Nat) (row : Row) : List Char :=
  row.gutter width ++
    if (row.body.print color).isEmpty then [] else ' ' :: row.body.print color

theorem Row.print_eq_face (color : Bool) (width : Nat) (row : Row) :
    row.print color width = row.face color width ++ ['\n'] := rfl

section Rows

variable {row : Row} {width : Nat}

theorem Row.painted_face (h : '\x1b' ∉ row.body.text) :
    Painted (row.face true width) (row.face false width) := by
  have hgutter : '\x1b' ∉ row.gutter width := fun hmem =>
    absurd (Row.mem_gutter hmem) (by decide)
  have hbody := Painting.painted_print h
  unfold Row.face
  rw [hbody.isEmpty_eq]
  refine (painted_of_notMem hgutter).append ?_
  split
  · exact .nil
  · exact .bare (by decide) hbody

theorem Row.newline_notMem_face (hescape : '\x1b' ∉ row.body.text) (h : '\n' ∉ row.body.text)
    (color : Bool) : '\n' ∉ row.face color width := by
  have hplain : '\n' ∉ row.face false width := by
    have hgutter : '\n' ∉ row.gutter width := fun hmem => absurd (Row.mem_gutter hmem) (by decide)
    unfold Row.face
    rw [Painting.print_false]
    split <;> simp [hgutter, h]
  cases color with
  | false => exact hplain
  | true => exact (Row.painted_face hescape).newline_notMem hplain

/-- The rows of a line show its characters, or marks. -/
theorem mem_body_of_mem_rows {line : SourceLine} {p : Position} {severity : Severity} {c : Char}
    (hrow : row ∈ line.rows p severity) (hc : c ∈ row.body.text) :
    c ∈ line.text ∨ c ∈ [' ', '\t', '~', '^'] := by
  unfold SourceLine.rows at hrow
  cases hm : line.marks? p with
  | none =>
    rw [hm] at hrow
    cases List.mem_singleton.mp hrow
    exact .inl ((List.append_nil line.text) ▸ hc)
  | some m =>
    rw [hm] at hrow
    rcases List.mem_cons.mp hrow with rfl | hrow
    · exact .inl ((m.text_painting_cut line.text severity) ▸ hc)
    · cases List.mem_singleton.mp hrow
      have hunderline : c ∈ line.underline p severity := by
        unfold SourceLine.underline
        rw [hm]
        exact hc
      exact .inr (SourceLine.mem_underline hunderline)

/-- The text of a line has characters of the source and no newline. -/
theorem mem_of_mem_text {source : List Char} {line : SourceLine} (hline : line.StandsIn source)
    {c : Char} (h : c ∈ line.text) : c ∈ source ∧ c ≠ '\n' := by
  cases hline with
  | last _ htext hsource =>
    exact ⟨hsource ▸ List.mem_append_right _ h, fun heq => htext (heq ▸ h)⟩
  | newline _ htext hsource =>
    exact ⟨hsource ▸ List.mem_append_left _ (List.mem_append_right _ h), fun heq => htext (heq ▸ h)⟩

/-- **Each row of an excerpt is one row of a text without escape sequences.** -/
theorem notMem_body_of_mem_excerptRows {source : List Char} (hsource : '\x1b' ∉ source)
    {p : Position} {severity : Severity} {context : Nat}
    (hrow : row ∈ excerptRows source p severity context) :
    '\x1b' ∉ row.body.text ∧ '\n' ∉ row.body.text := by
  obtain ⟨line, hline, hrow⟩ := List.mem_flatMap.mp hrow
  have hstands := standsIn_of_mem_sourceLines ((shownLines_sublist source p context).subset hline)
  constructor
  · intro hc
    rcases mem_body_of_mem_rows hrow hc with hc | hc
    · exact hsource (mem_of_mem_text hstands hc).1
    · exact absurd hc (by decide)
  · intro hc
    rcases mem_body_of_mem_rows hrow hc with hc | hc
    · exact (mem_of_mem_text hstands hc).2 rfl
    · exact absurd hc (by decide)

end Rows

/-! ## 4. Messages -/

section Messages

variable {name : String} {source : List Char}

/-- The lines of a printed excerpt are its rows. -/
theorem lines_printedExcerpt (hsource : '\x1b' ∉ source) (m : Message) (options : Presentation) :
    lines (m.printedExcerpt source options) =
      (excerptRows source m.position m.severity options.context).map
        (Row.face options.color (gutterWidth source)) ++ [[]] :=
  lines_flatMap_newline fun _ hrow =>
    have hbody := notMem_body_of_mem_excerptRows hsource hrow
    Row.newline_notMem_face hbody.1 hbody.2 options.color

/-- The excerpt of a message with color is the plain one, painted row by row: a style that is opened
    on a row is reset on it. -/
def Message.PaintsRows (m : Message) (source : List Char) (context : Nat) : Prop :=
  List.Forall₂ Painted (lines (m.printedExcerpt source ⟨true, context⟩))
    (lines (m.printedExcerpt source ⟨false, context⟩))

theorem paintsRows (hsource : '\x1b' ∉ source) (m : Message) (context : Nat) :
    m.PaintsRows source context := by
  unfold Message.PaintsRows
  rw [lines_printedExcerpt hsource, lines_printedExcerpt hsource]
  refine List.rel_append ?_ (.cons .nil .nil)
  rw [List.forall₂_map_left_iff, List.forall₂_map_right_iff, List.forall₂_same]
  exact fun row hrow => Row.painted_face (notMem_body_of_mem_excerptRows hsource hrow).1

theorem painted_header (hname : '\x1b' ∉ name.toList) {m : Message} (htext : '\x1b' ∉ m.text.toList)
    (source : List Char) :
    Painted ((m.header name source).print true) ((m.header name source).print false) :=
  Painting.painted_print (Message.notMem_header rfl hname htext source)

/-- **A message with color is the plain one, painted.** -/
theorem painted_rendered (hname : '\x1b' ∉ name.toList) (hsource : '\x1b' ∉ source) {m : Message}
    (htext : '\x1b' ∉ m.text.toList) (context : Nat) :
    Painted (m.rendered name source ⟨true, context⟩) (m.rendered name source ⟨false, context⟩) := by
  have hnewline : Painted ['\n'] ['\n'] := painted_of_notMem (by decide)
  refine ((painted_header hname htext source).append hnewline).append ?_
  refine painted_flatMap fun row hrow => Painted.append ?_
  rw [Row.print_eq_face, Row.print_eq_face]
  exact (Row.painted_face (notMem_body_of_mem_excerptRows hsource hrow).1).append hnewline

end Messages

/-- **Color only adds escape sequences.** Without them a message printed with color is the plain one,
    in its excerpt every style is reset on the row where it is opened, and the same holds of messages
    one behind the other. -/
theorem stripped_rendered {name : String} {source : List Char} (hname : '\x1b' ∉ name.toList)
    (hsource : '\x1b' ∉ source) (context : Nat) :
    (∀ m : Message, '\x1b' ∉ m.text.toList →
      strip (m.rendered name source ⟨true, context⟩) = m.rendered name source ⟨false, context⟩ ∧
      m.PaintsRows source context) ∧
    ∀ messages : List Message, (∀ m ∈ messages, '\x1b' ∉ m.text.toList) →
      strip (renderedAll messages name source ⟨true, context⟩) =
        renderedAll messages name source ⟨false, context⟩ ∧
      ∀ m ∈ messages, m.PaintsRows source context := by
  refine ⟨fun m htext => ⟨(painted_rendered hname hsource htext context).strip_eq,
    paintsRows hsource m context⟩, fun messages htexts => ⟨Painted.strip_eq ?_,
    fun m _ => paintsRows hsource m context⟩⟩
  exact painted_flatMap fun m hm => (painted_rendered hname hsource (htexts m hm) context).append

/-- A position from inside a character over an empty line, and one behind the end of the text. -/
theorem stripped_rendered_empty_row :
    ('\x1b' ∉ "t".toList ∧ '\x1b' ∉ "aé\n\nb".toList ∧ '\x1b' ∉ "span".toList) ∧
      strip (Message.rendered ⟨"span", .error, .clamped 2 3 2⟩ "t" "aé\n\nb".toList ⟨true, 1⟩) =
        Message.rendered ⟨"span", .error, .clamped 2 3 2⟩ "t" "aé\n\nb".toList ⟨false, 1⟩ ∧
      Message.PaintsRows ⟨"span", .error, .clamped 2 3 2⟩ "aé\n\nb".toList 1 ∧
      strip (renderedAll [⟨"span", .error, .clamped 2 3 2⟩, ⟨"span", .note, .clamped 9 1 0⟩] "t"
        "aé\n\nb".toList ⟨true, 0⟩) =
        renderedAll [⟨"span", .error, .clamped 2 3 2⟩, ⟨"span", .note, .clamped 9 1 0⟩] "t"
          "aé\n\nb".toList ⟨false, 0⟩ := by
  have hname : '\x1b' ∉ "t".toList := by decide
  have hsource : '\x1b' ∉ "aé\n\nb".toList := by decide
  have htext : '\x1b' ∉ "span".toList := by decide
  have hmessage := (stripped_rendered hname hsource 1).1 ⟨"span", .error, .clamped 2 3 2⟩ htext
  refine ⟨⟨hname, hsource, htext⟩, hmessage.1, hmessage.2,
    ((stripped_rendered hname hsource 0).2 _ fun m hm => ?_).1⟩
  rcases List.mem_cons.mp hm with rfl | hm
  · exact htext
  · cases List.mem_singleton.mp hm
    exact htext

end SourceScan
