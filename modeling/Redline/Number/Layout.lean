import Redline.Number.Shortest
import Redline.Text.Basic

/-!
# Doubles in text

A double is written with the fewest digits that identify it. It is written positionally, with at
least one digit after the point, when the point falls from four places before the digits to sixteen
places after their start; otherwise with an exponent of at least two digits.
-/

namespace Redline.Real

/-- Where positional notation begins and ends. -/
structure Layout where
  /-- The point may stand fewer than this many places before the first digit. -/
  leadingPlaces : Int
  /-- The point may stand at most this many places after the first digit. -/
  wholeDigits : Int
  /-- The least number of digits of an exponent. -/
  exponentWidth : Nat

/-- The layout of every number that the program writes. -/
def layout : Layout :=
  ⟨-4, 16, 2⟩

def padLeft (width : Nat) (c : Char) (t : Text) : Text :=
  List.replicate (width - t.length) c ++ t

/-- Digits with a point after the given number of them; the point may lie outside. -/
def positional (digits : Text) (point : Int) : Text :=
  if point ≤ 0 then
    "0.".toList ++ List.replicate (-point).toNat '0' ++ digits
  else if point ≥ digits.length then
    digits ++ List.replicate (point - digits.length).toNat '0' ++ ".0".toList
  else
    digits.take point.toNat ++ '.' :: digits.drop point.toNat

/-- One digit, the others after the point, and the exponent. -/
def scientific (form : Layout) (digits : Text) (point : Int) : Text :=
  let head := match digits with
    | [] => []
    | [d] => [d]
    | d :: ds => d :: '.' :: ds
  let exponent := point - 1
  let sign := if exponent < 0 then '-' else '+'
  head ++ 'e' :: sign :: padLeft form.exponentWidth '0' (Text.ofNat exponent.natAbs)

def ofDecimal (form : Layout) (d : Decimal) : Text :=
  let digits := Text.ofNat d.digits
  let point : Int := digits.length + d.exponent
  if d.digits == 0 then "0.0".toList
  else if form.leadingPlaces < point && point ≤ form.wholeDigits then positional digits point
  else scientific form digits point

def isNegative (x : Float) : Bool :=
  x.toBits >>> 63 == 1

def withSign (x : Float) (magnitude : Text) : Text :=
  if isNegative x then '-' :: magnitude else magnitude

/-- A double with the fewest digits that identify it. -/
def text (x : Float) : Text :=
  if x.isNaN then "nan".toList
  else if x.isInf then withSign x "inf".toList
  else withSign x (ofDecimal layout (Dyadic.ofFloat x).shortest)

/-- A double as a whole number, halves to the even neighbour. -/
def rounded (x : Float) : Text :=
  if x.isNaN then "nan".toList
  else if x.isInf then withSign x "inf".toList
  else withSign x (Text.ofNat (Dyadic.ofFloat x).round)

/-- The whole part of a finite double. -/
def truncate (x : Float) : Int :=
  let n := (Dyadic.ofFloat x).floor
  if isNegative x then -(n : Int) else n

/-- A finite double that is a whole number. -/
def isWhole (x : Float) : Bool :=
  let f := (Dyadic.ofFloat x).fraction
  f.num % f.den == 0

end Redline.Real
