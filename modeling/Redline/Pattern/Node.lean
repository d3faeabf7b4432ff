import Redline.Pattern.Class

/-!
# Patterns

The parts of a pattern, and how many characters a part can take.
-/

namespace Redline.Pattern

/-- A condition on a position. -/
inductive Anchor where
  /-- The start of the text. -/
  | textStart
  /-- The end of the text. -/
  | textEnd
  /-- The end of the text or the place before a newline that ends it. -/
  | lastLineEnd
  /-- The start of any line. -/
  | lineStart
  /-- The end of any line. -/
  | lineEnd
  /-- A place between a word character and another one. -/
  | wordEdge (ascii : Bool)
  /-- A place that is no such edge. -/
  | noWordEdge (ascii : Bool)
deriving Repr, DecidableEq

/-- In which order the counts of a repetition are tried. -/
inductive Greed where
  | greedy
  | lazy
  /-- Greedy, and nothing taken is given back. -/
  | possessive
deriving Repr, DecidableEq

/-- A part of a pattern. -/
inductive Node where
  | empty
  | one (cls : CharClass)
  | anchor (a : Anchor)
  | seq (first second : Node)
  | alt (first second : Node)
  | group (index : Nat) (body : Node)
  | backref (index : Nat) (folding : Folding)
  /-- A look ahead, or a look behind over the given number of characters. -/
  | look (behind : Option Nat) (negated : Bool) (body : Node)
  /-- A part of which only the first way to match counts. -/
  | atomic (body : Node)
  | loop (least : Nat) (most : Option Nat) (greed : Greed) (body : Node)
  /-- One of two parts, by whether a group has matched. -/
  | ifGroup (index : Nat) (yes no : Node)
deriving Repr, DecidableEq

/-- The least and the greatest number of characters that a part takes; without a bound there is no
greatest. -/
structure Width where
  least : Nat
  most : Option Nat
deriving Repr, DecidableEq

namespace Width

def zero : Width := ⟨0, some 0⟩

def one : Width := ⟨1, some 1⟩

def both (a b : Width) : Width :=
  ⟨a.least + b.least, do return (← a.most) + (← b.most)⟩

def either (a b : Width) : Width :=
  ⟨min a.least b.least, do return max (← a.most) (← b.most)⟩

def times (w : Width) (least : Nat) (most : Option Nat) : Width :=
  ⟨w.least * least,
    match w.most, most with
    | some 0, _ => some 0
    | some m, some n => some (m * n)
    | _, some 0 => some 0
    | _, _ => none⟩

/-- The number of characters when there is only one. -/
def fixed? (w : Width) : Option Nat :=
  if w.most == some w.least then some w.least else none

end Width

/-- The width of a part, given the widths of the groups that it refers to. -/
def Node.width (groups : Nat → Width) : Node → Width
  | .empty => .zero
  | .one _ => .one
  | .anchor _ => .zero
  | .seq a b => (a.width groups).both (b.width groups)
  | .alt a b => (a.width groups).either (b.width groups)
  | .group _ body => body.width groups
  | .backref index _ => groups index
  | .look .. => .zero
  | .atomic body => body.width groups
  | .loop least most _ body => (body.width groups).times least most
  | .ifGroup _ yes no => (yes.width groups).either (no.width groups)

/-- A sequence of parts. -/
def Node.ofSequence : List Node → Node
  | [] => .empty
  | [n] => n
  | n :: ns => .seq n (ofSequence ns)

/-- A choice between parts. -/
def Node.ofAlternatives : List Node → Node
  | [] => .empty
  | [n] => n
  | n :: ns => .alt n (ofAlternatives ns)

end Redline.Pattern

namespace Redline

/-- A pattern: its parts and the number of its groups. -/
structure Pattern where
  root : Pattern.Node
  groups : Nat
deriving Repr, DecidableEq

end Redline
