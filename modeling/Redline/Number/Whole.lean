import Redline.Text.Basic
import Redline.Text.Digit

/-!
# Whole numbers in text

A whole number is a sign and decimal digits of any script. Two grammars are read: a strict one
without separators, and a lenient one with an underscore between digits and padding around the
number. A number of more than 4300 digits is not read.
-/

namespace Redline

/-- A number was written with more digits than are read. -/
structure TooManyDigits where
  count : Nat
deriving Repr, DecidableEq

namespace TooManyDigits

/-- The most digits a number may have. -/
def limit : Nat := 4300

def message (e : TooManyDigits) : String :=
  s!"Exceeds the limit ({limit} digits) for integer string conversion: " ++
    s!"value has {e.count} digits; " ++
    "use sys.set_int_max_str_digits() to increase the limit"

end TooManyDigits

namespace Whole

/-- The values of the characters when all of them are decimal digits. -/
def digitValues? (t : Text) : Option (List Nat) :=
  t.mapM digitValue?

/-- The number that a list of digits writes in a base. -/
def value (base : Nat) (digits : List Nat) : Nat :=
  digits.foldl (fun acc d => acc * base + d) 0

/-- A sign, if there is one, and the rest. -/
def splitSign : Text → Bool × Text
  | '+' :: rest => (false, rest)
  | '-' :: rest => (true, rest)
  | t => (false, t)

/-- The number with the sign that was read. -/
def signed (negative : Bool) (n : Nat) : Int :=
  if negative then -(n : Int) else n

/-- Digits as a number, unless there are too many. -/
def ofDigits (digits : List Nat) : Except TooManyDigits Nat :=
  if digits.length > TooManyDigits.limit then .error ⟨digits.length⟩
  else .ok (value 10 digits)

/-- Read an optional sign and one or more digits, with blanks around them. -/
def read? (t : Text) : Except TooManyDigits (Option Int) :=
  let (negative, body) := splitSign (Text.trim t)
  match digitValues? body with
  | some (d :: ds) => do return some (signed negative (← ofDigits (d :: ds)))
  | _ => return none

/-- A blank that may stand around a number in the lenient grammar. -/
def isPadding (c : Char) : Bool :=
  isBlank c && !(0x1C ≤ c.toNat && c.toNat ≤ 0x1F)

/-- Drop the underscores of a digit sequence. Each must stand between two digits. -/
def dropUnderscores (isDigit : Char → Bool) : Text → Option Text
  | [] => some []
  | c :: '_' :: d :: rest =>
    if isDigit c && isDigit d then (dropUnderscores isDigit (d :: rest)).map (c :: ·) else none
  | '_' :: _ => none
  | [_, '_'] => none
  | c :: rest => (dropUnderscores isDigit rest).map (c :: ·)

/-- Read a number in the lenient grammar: padding, a sign, digits with single underscores. -/
def readLenient? (t : Text) : Option Int :=
  let (negative, body) := splitSign (Text.trimWhere isPadding t)
  match (dropUnderscores isDecimal body).bind digitValues? with
  | some (d :: ds) => (ofDigits (d :: ds)).toOption.map (signed negative)
  | _ => none

/-- The value of a digit in base sixteen. -/
def hexValue? (c : Char) : Option Nat :=
  if 'a' ≤ c ∧ c ≤ 'f' then some (c.toNat - 'a'.toNat + 10)
  else if 'A' ≤ c ∧ c ≤ 'F' then some (c.toNat - 'A'.toNat + 10)
  else digitValue? c

/-- Drop the mark `0x` of a number in base sixteen, with an underscore after it. The zero may be of
any script. -/
def dropHexMark : Text → Text
  | zero :: x :: rest =>
    if hexValue? zero == some 0 && (x == 'x' || x == 'X') then
      match rest with
      | '_' :: digits => digits
      | digits => digits
    else zero :: x :: rest
  | t => t

/-- Read a number in base sixteen, in the lenient grammar and with an optional mark. -/
def readHex? (t : Text) : Option Int :=
  let (negative, body) := splitSign (Text.trimWhere isPadding t)
  let digits := dropUnderscores (fun c => (hexValue? c).isSome) (dropHexMark body)
  match digits.bind (·.mapM hexValue?) with
  | some (d :: ds) => some (signed negative (value 16 (d :: ds)))
  | _ => none

end Whole

end Redline
