import Redline.Number.Whole
import Redline.Text.Case

/-!
# Reading doubles

The grammar of a real number: a sign, digits with an optional point, an optional exponent, or the
words for infinity and for no number. Digits may be of any script and may be separated by single
underscores.
-/

namespace Redline.Real

/-- Characters of any script replaced by their basic form. -/
def basicDigit (c : Char) : Char :=
  match digitValue? c with
  | some d => Char.ofNat (48 + d)
  | none => c

def isBasicDigit (c : Char) : Bool :=
  '0' ≤ c && c ≤ '9'

/-- Underscores are dropped where they stand between two digits, and refused elsewhere. -/
def dropUnderscores : Option Char → Text → Option Text
  | last, [] => if last == some '_' then none else some []
  | last, c :: rest =>
    if c == '_' then
      if last.any isBasicDigit then dropUnderscores (some c) rest else none
    else if last == some '_' && !isBasicDigit c then none
    else (dropUnderscores (some c) rest).map (c :: ·)

/-- The double nearest to `digits * 10 ^ exponent`. Magnitudes far outside the range of doubles are
decided by their scale alone. -/
def ofScientific (digits : Nat) (exponent : Int) : Float :=
  let scale := (Nat.toDigits 10 digits).length + exponent
  if digits == 0 then 0.0
  else if scale > 400 then 1.0 / 0.0
  else if scale < -400 then 0.0
  else Float.ofScientific digits (exponent < 0) exponent.natAbs

/-- The exponent part of a number; the text must end with it. -/
def readExponent? : Text → Option Int
  | [] => some 0
  | e :: rest =>
    if e == 'e' || e == 'E' then
      let (negative, digits) := Whole.splitSign rest
      match Whole.digitValues? digits with
      | some (d :: ds) => some (Whole.signed negative (Whole.value 10 (d :: ds)))
      | _ => none
    else none

/-- A number without its sign. -/
def readMagnitude? (t : Text) : Option Float :=
  let word := lower t
  if word == "inf".toList || word == "infinity".toList then some (1.0 / 0.0)
  else if word == "nan".toList then some (0.0 / 0.0)
  else
    let (whole, rest) := t.span isBasicDigit
    let (places, rest) := match rest with
      | '.' :: tail => tail.span isBasicDigit
      | tail => ([], tail)
    match Whole.digitValues? (whole ++ places), readExponent? rest with
    | some (d :: ds), some exponent =>
      some (ofScientific (Whole.value 10 (d :: ds)) (exponent - places.length))
    | _, _ => none

/-- Read a double in the lenient grammar. -/
def read? (t : Text) : Option Float := do
  let plain ← dropUnderscores none ((Text.trimWhere Whole.isPadding t).map basicDigit)
  let (negative, body) := Whole.splitSign plain
  let magnitude ← readMagnitude? body
  return if negative then -magnitude else magnitude

end Redline.Real
