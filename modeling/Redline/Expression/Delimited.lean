import Redline.Text.Digit
import Redline.Number.Whole

/-!
# Fields and flags of an expression

The fields of an expression stand between places of one delimiter; a backslash before it makes it
part of a field. The flags are the last field: they ask for a search without regard to case, for
line by line matching, for every match, or for one match by its number. What follows an opening
brace in the flags does not count for the pattern and the number.
-/

namespace Redline.Delimited

/-- Put a character in front of the first field. -/
def prepend (c : Char) : List Text → List Text
  | field :: fields => (c :: field) :: fields
  | [] => [[c]]

/-- The fields between the places of a delimiter. -/
def split (delimiter : Char) : Text → List Text
  | [] => [[]]
  | [c] => if c == delimiter then [[], []] else [[c]]
  | c :: d :: rest =>
    if c == '\\' && d == delimiter then prepend delimiter (split delimiter rest)
    else if c == delimiter then [] :: split delimiter (d :: rest)
    else prepend c (split delimiter (d :: rest))

/-- The flags before any brace. -/
def plainFlags (flags : Text) : Text :=
  flags.takeWhile (· != '\x7b')

/-- The pattern with the flags that concern it in front. -/
def withFlags (pattern flags : Text) : Text :=
  let plain := plainFlags flags
  let inline := ['i', 'm'].filter plain.contains
  if inline.isEmpty then pattern else "(?".toList ++ inline ++ ')' :: pattern

/-- The number of the match that is meant, zero when there is none. -/
def nth (flags : Text) : Except TooManyDigits Nat :=
  let digits := ((plainFlags flags).dropWhile (!isDecimal ·)).takeWhile isDecimal
  Whole.ofDigits ((Whole.digitValues? digits).getD [])

end Redline.Delimited
