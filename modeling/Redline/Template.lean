import Redline.Number.Whole
import Redline.Pattern.Search

/-!
# Replacement templates

A replacement is written with the references of a substitute command and kept as a template: a
group stands in it as a dollar and the group's number in braces, and a literal dollar is doubled.
A template is expanded piece by piece against a match.
-/

namespace Redline.Template

/-- A reference to a group, as a template writes it. -/
def reference (number : Text) : Text :=
  '$' :: '\x7b' :: number ++ ['\x7d']

/-- What holds the place of a group reference while a replacement is converted. -/
def groupMark (digit : Char) : Text :=
  "\x00BACKREF_".toList ++ [digit, '\x00']

/-- What holds the place of an escaped ampersand while a replacement is converted. -/
def ampersandMark : Text :=
  "\x00LITAMP\x00".toList

/-- A digit that names a group on its own. -/
def isGroupDigit (c : Char) : Bool :=
  '1' ≤ c && c ≤ '9'

/-- Characters that an escape in a replacement takes as they are. -/
def plainEscapes : List Char :=
  ".^[]()+?|".toList

/-- What an escaped character stands for. Escapes that are not decided here keep their backslash. -/
def escapeMarked (c : Char) : Text :=
  if isGroupDigit c then groupMark c
  else if c == '$' then ['$', '$']
  else if plainEscapes.contains c then [c]
  else if c == '&' then ampersandMark
  else if c == '\\' then ['\\']
  else ['\\', c]

/-- Replace references and escapes by marks and doubled dollars, from left to right. -/
def marked : Text → Text
  | [] => []
  | '\\' :: c :: rest => escapeMarked c ++ marked rest
  | '$' :: rest =>
    match rest with
    | '$' :: tail => '$' :: '$' :: marked tail
    | '\x7b' :: tail => '$' :: marked ('\x7b' :: tail)
    | c :: tail =>
      if isGroupDigit c then groupMark c ++ marked tail else '$' :: '$' :: marked (c :: tail)
    | [] => ['$', '$']
  | c :: rest => c :: marked rest

/-- A mark of a group at the start of a text. -/
def groupMark? (t : Text) : Option (Nat × Text) :=
  match Text.after? "\x00BACKREF_".toList t with
  | some (d :: '\x00' :: _) => if isDecimal d then some (11, reference [d]) else none
  | _ => none

/-- The template of a replacement. -/
def convert (replacement : Text) : Text :=
  let grouped := Text.replaceBy groupMark? (marked replacement)
  Text.replaceAll ampersandMark ['&'] (Text.replaceAll ['&'] (reference ['0']) grouped)

/-- A template as text, when there is no match to expand it with: doubled dollars are single. -/
def literal (template : Text) : Text :=
  Text.replaceAll ['$', '$'] ['$'] template

/-- A piece of a template. -/
inductive Piece where
  | char (c : Char)
  /-- A group, by the digits of its number. -/
  | group (digits : Text)
deriving Repr, DecidableEq

private theorem length_dropWhile_le (p : Char → Bool) (t : Text) :
    (t.dropWhile p).length ≤ t.length :=
  List.Sublist.length_le (List.dropWhile_sublist p)

/-- The pieces of a template. -/
def pieces (t : Text) : List Piece :=
  match t with
  | [] => []
  | '$' :: '$' :: rest => .char '$' :: pieces rest
  | '$' :: '\x7b' :: rest =>
    match _h : rest.dropWhile isDecimal with
    | '\x7d' :: tail =>
      if (rest.takeWhile isDecimal).isEmpty then .char '$' :: pieces ('\x7b' :: rest)
      else .group (rest.takeWhile isDecimal) :: pieces tail
    | _ => .char '$' :: pieces ('\x7b' :: rest)
  | c :: rest => .char c :: pieces rest
termination_by t.length
decreasing_by
  all_goals simp_wf
  all_goals have := length_dropWhile_le isDecimal rest
  all_goals simp_all
  all_goals omega

/-- The text of a piece. Without a match a group is empty, and so is a group that the pattern does
not have or that has not matched. -/
def Piece.expand (m : Option Match) : Piece → Except TooManyDigits Text
  | .char c => .ok [c]
  | .group digits =>
    match m with
    | none => .ok []
    | some m => do
      let index ← Whole.ofDigits ((Whole.digitValues? digits).getD [])
      return if index > m.groups then [] else (m.group? index).getD []

/-- The text of a template. -/
def expand (m : Option Match) (template : Text) : Except TooManyDigits Text := do
  return (← (pieces template).mapM (Piece.expand m)).flatten

/-- The text of a template that carries formatting directives: escaped newlines are decoded. -/
def render (m : Option Match) (template : Text) : Except TooManyDigits Text := do
  return Text.replaceAll "\\n".toList ['\n'] (← expand m template)

end Redline.Template
