import Redline.Text.Blank

/-!
# Text

A text is a list of characters. This module has the operations that the readers share: trimming,
looking for a piece of text, cutting and splitting at it, replacing it, and taking a part by
positions that may count from the end.
-/

namespace Redline

/-- A text, character by character. -/
abbrev Text := List Char

namespace Text

/-- The text without the characters of a class at its start. -/
def dropStart (p : Char → Bool) (t : Text) : Text :=
  t.dropWhile p

/-- The text without the characters of a class at its end. -/
def dropEnd (p : Char → Bool) (t : Text) : Text :=
  (t.reverse.dropWhile p).reverse

/-- The text without the characters of a class at either end. -/
def trimWhere (p : Char → Bool) (t : Text) : Text :=
  dropEnd p (dropStart p t)

/-- The text without blanks at either end. -/
def trim (t : Text) : Text :=
  trimWhere isBlank t

/-- The piece stands at the start. -/
def startsWith (piece t : Text) : Bool :=
  piece.isPrefixOf t

/-- The piece stands at the end. -/
def endsWith (piece t : Text) : Bool :=
  piece.isSuffixOf t

/-- The rest of the text after a piece at its start. -/
def after? (piece t : Text) : Option Text :=
  if startsWith piece t then some (t.drop piece.length) else none

/-- The text before and after the first place where the piece stands. -/
def cut? (piece : Text) : Text → Option (Text × Text)
  | [] => if piece.isEmpty then some ([], []) else none
  | c :: rest =>
    if startsWith piece (c :: rest) then
      some ([], (c :: rest).drop piece.length)
    else
      (cut? piece rest).map fun (before, tail) => (c :: before, tail)

/-- The text before and after the first character of a class, which goes with the second part. -/
def breakAt (p : Char → Bool) (t : Text) : Text × Text :=
  t.span fun c => !p c

/-- The first position of the piece. -/
def indexOf? (piece t : Text) : Option Nat :=
  (cut? piece t).map (·.1.length)

/-- The piece stands somewhere in the text. -/
def occursIn (piece t : Text) : Bool :=
  (cut? piece t).isSome

/-- The last position of a character. -/
def lastIndexOf? (c : Char) (t : Text) : Option Nat :=
  (t.reverse.findIdx? (· == c)).map fun i => t.length - 1 - i

/-- The parts between the places of one character. -/
def fields (sep : Char) : Text → List Text
  | [] => [[]]
  | c :: rest =>
    if c == sep then [] :: fields sep rest
    else match fields sep rest with
      | part :: parts => (c :: part) :: parts
      | [] => [[c]]

/-- The parts of a text between blanks; there are no empty parts. -/
def words (t : Text) : List Text :=
  go t []
where
  go : Text → Text → List Text
    | [], word => if word.isEmpty then [] else [word.reverse]
    | c :: rest, word =>
      if isBlank c then
        if word.isEmpty then go rest [] else word.reverse :: go rest []
      else go rest (c :: word)

/-- Replace by a rule, from left to right. Where the rule applies it gives the number of characters
that are used up and what stands in their place. -/
def replaceBy (rule : Text → Option (Nat × Text)) (t : Text) : Text :=
  go 0 t
where
  /-- The first argument counts the characters that are still to be passed over. -/
  go : Nat → Text → Text
    | _, [] => []
    | skip + 1, _ :: rest => go skip rest
    | 0, c :: rest =>
      match rule (c :: rest) with
      | some (used, new) => new ++ go (used - 1) rest
      | none => c :: go 0 rest

/-- Replace every place of a piece, from left to right. -/
def replaceAll (piece new : Text) (t : Text) : Text :=
  replaceBy (fun rest => if startsWith piece rest then some (piece.length, new) else none) t

/-- Join parts with a separator. -/
def join (sep : Text) (parts : List Text) : Text :=
  sep.intercalate parts

/-- A position that counts from the end when it is negative, brought into the text. -/
def bound (length : Nat) (i : Int) : Nat :=
  if i < 0 then (i + length).toNat else min i.toNat length

/-- The part of a text before a position, which may count from the end. -/
def upTo (i : Int) (t : Text) : Text :=
  t.take (bound t.length i)

/-- The part from `start` to `stop`, both within the text. -/
def slice (start stop : Nat) (t : Text) : Text :=
  (t.take stop).drop start

/-- A number in decimal notation. -/
def ofNat (n : Nat) : Text :=
  Nat.toDigits 10 n

/-- An integer in decimal notation. -/
def ofInt : Int → Text
  | .ofNat n => ofNat n
  | .negSucc n => '-' :: ofNat (n + 1)

end Text

end Redline
