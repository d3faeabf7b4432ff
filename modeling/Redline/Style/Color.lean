import Redline.Json.Basic
import Redline.Number.Whole
import Redline.Text.Case

/-!
# Colours

A colour is written as three or six digits in base sixteen, with an optional hash in front.
-/

namespace Redline

/-- A colour by its channels, each from 0 to 255, or a shade of grey from 0 to 1. -/
inductive Color where
  | rgb (red green blue : Nat)
  | grey (intensity : Float)

namespace Color

/-- The channel of a number that starts at a bit. -/
def channel (n : Int) (weight : Nat) : Nat :=
  (n / weight % 256).toNat

/-- Read a colour. Three digits stand for six, each of them twice. -/
def read? (value : Text) : Option Color :=
  let digits := match value with
    | '#' :: rest => rest
    | _ => value
  let digits := if digits.length = 3 then digits.flatMap fun c => [c, c] else digits
  if digits.length ≠ 6 then none
  else (Whole.readHex? digits).map fun n => .rgb (channel n 65536) (channel n 256) (channel n 1)

/-- The share of a channel in full light. -/
def share (n : Nat) : Float :=
  Float.ofNat n / 255

/-- The shares of red, green and blue. -/
def shares : Color → List Float
  | .rgb r g b => [share r, share g, share b]
  | .grey x => [x, x, x]

/-- The colour in a request. -/
def toJson (c : Color) : Json :=
  let rgb := Json.ofFields ((["red", "green", "blue"].zip c.shares).map fun (k, x) => (k, .real x))
  .ofFields [("color", .ofFields [("rgbColor", rgb)])]

/-- A digit in base sixteen, of the basic alphabet. -/
def isHexDigit (c : Char) : Bool :=
  ('0' ≤ c && c ≤ '9') || ('a' ≤ c && c ≤ 'f') || ('A' ≤ c && c ≤ 'F')

/-- The text is a hash and three or six digits. -/
def isHashed : Text → Bool
  | '#' :: digits => (digits.length == 3 || digits.length == 6) && digits.all isHexDigit
  | _ => false

/-- A colour after a hash in capital letters, with six digits for three. -/
def normalize : Text → Text
  | '#' :: digits =>
    let digits := upper digits
    '#' :: (if digits.length = 3 then digits.flatMap fun c => [c, c] else digits)
  | value => value

end Color

end Redline
