import SourceScan.Text.CodeRange

/-!
# Text/Blank.lean -- the blank characters

The characters with the Unicode property White_Space. A line of them alone holds nothing to read.
-/

namespace SourceScan.Text

/-- The code points with the property White_Space, as closed ranges. -/
def blankRanges : List (Nat × Nat) :=
  [(0x0009, 0x000d), (0x0020, 0x0020), (0x0085, 0x0085), (0x00a0, 0x00a0), (0x1680, 0x1680),
   (0x2000, 0x200a), (0x2028, 0x2029), (0x202f, 0x202f), (0x205f, 0x205f), (0x3000, 0x3000)]

/-- Whether a character has the property White_Space. -/
def isBlank (c : Char) : Bool :=
  inRanges blankRanges c.toNat

/-- Whether a line holds blank characters only. -/
def isBlankLine (line : List Char) : Bool :=
  line.all isBlank

end SourceScan.Text
