import Redline.Pattern.Matcher
import Redline.Pattern.Reader

/-!
# Searching

The leftmost match of a pattern from a position on, and all matches from left to right. Matches do
not overlap; after an empty match the next one that starts at the same place must not be empty.
-/

namespace Redline

/-- A match of a pattern in a subject: its span and the spans of its groups. -/
structure Match where
  subject : Text
  start : Nat
  stop : Nat
  captures : Pattern.Captures
  /-- The number of groups of the pattern. -/
  groups : Nat

namespace Match

/-- The text of the whole match. -/
def whole (m : Match) : Text :=
  Text.slice m.start m.stop m.subject

/-- The text of a group that has matched; the group zero is the whole match. -/
def group? (m : Match) (index : Nat) : Option Text :=
  if index == 0 then some m.whole
  else (m.captures.span? index).map fun (start, stop) => Text.slice start stop m.subject

end Match

namespace Pattern

/-- A match that starts at a position and, if asked, is not empty. -/
def matchAt (p : Pattern) (s : Subject) (i : Nat) (nonempty : Bool) : Option Outcome :=
  p.root.run s i [] fun j caps => if nonempty && j == i then none else some (j, caps)

/-- The leftmost match from a position on. The flag forbids an empty match at that position. -/
def searchFrom (p : Pattern) (s : Subject) (i : Nat) (nonempty : Bool) :
    Option (Nat × Outcome) :=
  (List.range' i (s.size + 1 - i)).findSome? fun j =>
    (p.matchAt s j (nonempty && j == i)).map fun outcome => (j, outcome)

/-- Matches from a position on, at most so many. -/
def matchesFrom (p : Pattern) (text : Text) (s : Subject) : Nat → Nat → Bool → List Match
  | 0, _, _ => []
  | budget + 1, i, nonempty =>
    match p.searchFrom s i nonempty with
    | none => []
    | some (start, stop, caps) =>
      ⟨text, start, stop, caps, p.groups⟩ ::
        matchesFrom p text s budget stop (start == stop)

/-- All matches in a text, from left to right. -/
def findAll (p : Pattern) (text : Text) : List Match :=
  p.matchesFrom text text.toArray (2 * text.length + 2) 0 false

/-- The leftmost match in a text. -/
def find? (p : Pattern) (text : Text) : Option Match :=
  (p.searchFrom text.toArray 0 false).map fun (start, stop, caps) =>
    ⟨text, start, stop, caps, p.groups⟩

/-- The pattern matches somewhere in the text. -/
def occursIn (p : Pattern) (text : Text) : Bool :=
  (p.find? text).isSome

end Pattern

end Redline
