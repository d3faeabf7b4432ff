import Redline.Text.Basic

/-!
# Shifted positions

When edits have changed the length of a document, positions of the old document have to be moved. A
position moves by the change of every edit that starts before it.
-/

namespace Redline

/-- An edit that changes the length: where it starts, and by how much. -/
structure LengthChange where
  start : Int
  delta : Int
deriving Repr, DecidableEq

/-- The changes of length of one batch. -/
abbrev ShiftMap := List LengthChange

namespace ShiftMap

/-- Add an edit that puts `new` units in the place of `old` ones. -/
def record (m : ShiftMap) (start old new : Int) : ShiftMap :=
  if new = old then m else m ++ [⟨start, new - old⟩]

/-- By how much the length changes in all. -/
def delta : ShiftMap → Int
  | [] => 0
  | e :: rest => e.delta + delta rest

/-- Where a position is found after the edits. -/
def move (m : ShiftMap) (offset : Int) : Int :=
  offset + delta (m.filter fun e => decide (e.start < offset))

/-- Where a position is found after several batches, the oldest first. -/
def moveThrough (maps : List ShiftMap) (offset : Int) : Int :=
  maps.foldl (fun o m => m.move o) offset

end ShiftMap

end Redline
