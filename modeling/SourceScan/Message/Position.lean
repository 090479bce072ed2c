/-!
# Message/Position.lean -- where a message points

A position is a stretch of a text with a pointer at its most telling character. All three numbers
count bytes, and the pointer counts from the start of the stretch.
-/

namespace SourceScan

/-- A stretch of a text and a pointer into it, at its end at most. -/
structure Position where
  start : Nat
  length : Nat
  pointer : Nat
  pointer_le : pointer ≤ length
deriving DecidableEq, Repr

namespace Position

/-- The position with the pointer brought down to the end of the stretch. -/
def clamped (start length pointer : Nat) : Position :=
  ⟨start, length, min pointer length, Nat.min_le_right ..⟩

/-- One byte, and the pointer at it. -/
def single (start : Nat) : Position :=
  clamped start 1 0

/-- The offset behind the stretch. -/
def stop (p : Position) : Nat := p.start + p.length

/-- The offset the pointer is at. -/
def target (p : Position) : Nat := p.start + p.pointer

/-- The pointer lies in the stretch or at its end. -/
theorem target_le_stop (p : Position) : p.target ≤ p.stop :=
  Nat.add_le_add_left p.pointer_le p.start

end Position

end SourceScan
