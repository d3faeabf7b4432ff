import Redline.Pattern.Node

/-!
# Matching

A part of a pattern is run at a position with the groups captured so far and a continuation for the
rest of the pattern. Ways to match are tried in order of priority, and the first one that lets the
rest match is taken. The recursion is on the pattern; only a repetition counts its rounds, and a
round beyond the required ones must start past the start of the round before it.
-/

namespace Redline.Pattern

/-- The text that a pattern is run on. -/
abbrev Subject := Array Char

/-- The spans of the groups that have matched, the latest first. -/
abbrev Captures := List (Nat × Nat × Nat)

/-- The latest span of a group. -/
def Captures.span? (caps : Captures) (index : Nat) : Option (Nat × Nat) :=
  (caps.find? (·.1 == index)).map (·.2)

/-- Where a match ends, with its groups. -/
abbrev Outcome := Nat × Captures

/-- The rest of a pattern. -/
abbrev Continuation := Nat → Captures → Option Outcome

/-- A part of a pattern, run at a position. -/
abbrev Step := Nat → Captures → Continuation → Option Outcome

/-- The end of a pattern. -/
def accept : Continuation :=
  fun i caps => some (i, caps)

/-- The character at a position belongs to a word. -/
def wordAt (s : Subject) (ascii : Bool) (i : Nat) : Bool :=
  match s[i]? with
  | some c => CharKind.holds ascii .word c.toNat
  | none => false

/-- The character before a position belongs to a word. -/
def wordBefore (s : Subject) (ascii : Bool) (i : Nat) : Bool :=
  i > 0 && wordAt s ascii (i - 1)

/-- The anchor holds at a position. In an empty text no place is a word edge and none is not. -/
def Anchor.holds (s : Subject) (i : Nat) : Anchor → Bool
  | .textStart => i == 0
  | .textEnd => i == s.size
  | .lastLineEnd => i == s.size || (i + 1 == s.size && s[i]? == some '\n')
  | .lineStart => i == 0 || s[i - 1]? == some '\n'
  | .lineEnd => i == s.size || s[i]? == some '\n'
  | .wordEdge ascii => s.size != 0 && (wordBefore s ascii i != wordAt s ascii i)
  | .noWordEdge ascii => s.size != 0 && (wordBefore s ascii i == wordAt s ascii i)

/-- Two characters are the same letter under a folding. -/
def sameLetter (f : Folding) (a b : Char) : Bool :=
  f.lower a.toNat == f.lower b.toNat

/-- The text of a span stands at a position. -/
def repeatsAt (s : Subject) (f : Folding) (start stop i : Nat) : Bool :=
  i + (stop - start) ≤ s.size &&
    (List.range (stop - start)).all fun k =>
      match s[start + k]?, s[i + k]? with
      | some a, some b => sameLetter f a b
      | _, _ => false

/-- A step done a number of times. -/
def times (body : Step) : Nat → Step
  | 0, i, caps, k => k i caps
  | n + 1, i, caps, k => body i caps fun j caps' => times body n j caps' k

/-- More rounds first, then the rest. -/
def moreThenRest (body : Step) : Nat → Option Nat → Step
  | 0, _, i, caps, k => k i caps
  | n + 1, last, i, caps, k =>
    if last == some i then k i caps
    else (body i caps fun j caps' => moreThenRest body n (some i) j caps' k).or (k i caps)

/-- The rest first, then more rounds. -/
def restThenMore (body : Step) : Nat → Option Nat → Step
  | 0, _, i, caps, k => k i caps
  | n + 1, last, i, caps, k =>
    (k i caps).or
      (if last == some i then none
       else body i caps fun j caps' => restThenMore body n (some i) j caps' k)

/-- As many rounds as there are, each by its first way to match. -/
def committed (body : Step) : Nat → Option Nat → Nat → Captures → Outcome
  | 0, _, i, caps => (i, caps)
  | n + 1, last, i, caps =>
    if last == some i then (i, caps)
    else match body i caps accept with
      | some (j, caps') => committed body n (some i) j caps'
      | none => (i, caps)

/-- The required rounds, each by its first way to match. -/
def committedTimes (body : Step) : Nat → Nat → Captures → Option Outcome
  | 0, i, caps => some (i, caps)
  | n + 1, i, caps =>
    match body i caps accept with
    | some (j, caps') => committedTimes body n j caps'
    | none => none

/-- How many rounds beyond the required ones can make a difference. -/
def extraRounds (size least : Nat) : Option Nat → Nat
  | none => size + 2
  | some most => min (most - least) (size + 2)

/-- Run a part of a pattern. -/
def Node.run (s : Subject) : Node → Step
  | .empty, i, caps, k => k i caps
  | .one cls, i, caps, k =>
    match s[i]? with
    | some c => if cls.holds c then k (i + 1) caps else none
    | none => none
  | .anchor a, i, caps, k => if a.holds s i then k i caps else none
  | .seq a b, i, caps, k => a.run s i caps fun j caps' => b.run s j caps' k
  | .alt a b, i, caps, k => (a.run s i caps k).or (b.run s i caps k)
  | .group index body, i, caps, k =>
    body.run s i caps fun j caps' => k j ((index, i, j) :: caps')
  | .backref index f, i, caps, k =>
    match caps.span? index with
    | some (start, stop) =>
      if repeatsAt s f start stop i then k (i + (stop - start)) caps else none
    | none => none
  | .look behind negated body, i, caps, k =>
    let width := behind.getD 0
    let found := if width ≤ i then body.run s (i - width) caps accept else none
    match negated, found with
    | false, some (_, caps') => k i caps'
    | true, none => k i caps
    | _, _ => none
  | .atomic body, i, caps, k =>
    match body.run s i caps accept with
    | some (j, caps') => k j caps'
    | none => none
  | .loop least most greed body, i, caps, k =>
    let extra := extraRounds s.size least most
    match greed with
    | .greedy => times (body.run s) least i caps fun j caps' =>
        moreThenRest (body.run s) extra none j caps' k
    | .lazy => times (body.run s) least i caps fun j caps' =>
        restThenMore (body.run s) extra none j caps' k
    | .possessive =>
      match committedTimes (body.run s) least i caps with
      | some (j, caps') =>
        let (j', caps'') := committed (body.run s) extra none j caps'
        k j' caps''
      | none => none
  | .ifGroup index yes no, i, caps, k =>
    if (caps.span? index).isSome then yes.run s i caps k else no.run s i caps k

end Redline.Pattern
