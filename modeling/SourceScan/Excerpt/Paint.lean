import SourceScan.Message.Basic

/-!
# Excerpt/Paint.lean -- painted text

A painted text is a sequence of strokes, each in one style or in none. What it says does not depend
on color: with color every stroke that is not empty stands between its style's escape sequence and
the reset, without color all strokes stand as they are.
-/

namespace SourceScan

/-- The styles of a rendering: what is emphasised, and what has the color of a severity. -/
inductive Style where
  | emphasis
  | severity (s : Severity)
deriving DecidableEq, Repr

/-- The escape sequence that opens a style. -/
def Style.opening : Style → List Char
  | emphasis => ['\x1b', '[', '1', ';', '3', '7', 'm']
  | severity .note => ['\x1b', '[', '1', ';', '3', '6', 'm']
  | severity .warning => ['\x1b', '[', '1', ';', '3', '5', 'm']
  | severity .error => ['\x1b', '[', '1', ';', '3', '1', 'm']

/-- The escape sequence that ends every style. -/
def Style.reset : List Char :=
  ['\x1b', '[', '0', 'm']

/-- A text in one style, or in none. -/
structure Stroke where
  style : Option Style
  text : List Char
deriving DecidableEq, Repr

/-- A text in no style. -/
def Stroke.bare (text : List Char) : Stroke := ⟨none, text⟩

/-- A text in a style. -/
def Stroke.styled (style : Style) (text : List Char) : Stroke := ⟨some style, text⟩

/-- A stroke as it is printed. An empty one prints nothing. -/
def Stroke.print (color : Bool) (s : Stroke) : List Char :=
  match s.style with
  | none => s.text
  | some style =>
    if color && !s.text.isEmpty then style.opening ++ s.text ++ Style.reset else s.text

/-- A sequence of strokes. -/
abbrev Painting := List Stroke

/-- What a painting says. -/
def Painting.text (p : Painting) : List Char :=
  p.flatMap Stroke.text

/-- A painting as it is printed. -/
def Painting.print (color : Bool) (p : Painting) : List Char :=
  p.flatMap (Stroke.print color)

/-- **Without color a painting prints what it says.** -/
theorem Painting.print_false (p : Painting) : p.print false = p.text := by
  have h (s : Stroke) : s.print false = s.text := by
    unfold Stroke.print
    split <;> simp
  unfold Painting.print Painting.text
  congr 1
  funext s
  exact h s

/-- Color takes no lines of its own. -/
theorem Painting.newline_notMem_print {p : Painting} (h : '\n' ∉ p.text) (color : Bool) :
    '\n' ∉ p.print color := by
  intro hmem
  obtain ⟨s, hs, hmem⟩ := List.mem_flatMap.mp hmem
  have htext : '\n' ∉ s.text := fun hc => h (List.mem_flatMap.mpr ⟨s, hs, hc⟩)
  have hopening : ∀ style : Style, '\n' ∉ style.opening := by
    intro style
    cases style with
    | emphasis => decide
    | severity s => cases s <;> decide
  have hreset : '\n' ∉ Style.reset := by decide
  unfold Stroke.print at hmem
  split at hmem
  · exact htext hmem
  · split at hmem
    · simp only [List.mem_append, hopening, htext, hreset, or_self] at hmem
    · exact htext hmem

end SourceScan
