/-!
# The shortest decimal of a double

A finite double stands for an interval of reals: those that round to it. Among the decimals in that
interval we take one with the fewest digits, and of those the nearest to the value. All comparisons
are between natural numbers.
-/

namespace Redline

/-- A finite non-negative double, `mantissa * 2 ^ exponent`. -/
structure Dyadic where
  mantissa : Nat
  exponent : Int
  /-- The value below lies at half the distance of the value above. -/
  narrow : Bool
deriving Repr, DecidableEq

/-- A decimal, `digits * 10 ^ exponent`. -/
structure Decimal where
  digits : Nat
  exponent : Int
deriving Repr, DecidableEq

/-- A fraction of natural numbers. -/
structure Fraction where
  num : Nat
  den : Nat
deriving Repr, DecidableEq

namespace Dyadic

/-- The magnitude that the bits of a finite double stand for. -/
def ofBits (bits : UInt64) : Dyadic :=
  let biased := ((bits >>> 52) &&& 0x7FF).toNat
  let field := (bits &&& 0xFFFFFFFFFFFFF).toNat
  if biased == 0 then ⟨field, -1074, false⟩
  else ⟨0x10000000000000 + field, (biased : Int) - 1075, field == 0 && biased > 1⟩

def ofFloat (x : Float) : Dyadic :=
  ofBits x.toBits

/-- `n * 2 ^ e` as a fraction. -/
def scaled (n : Nat) (e : Int) : Fraction :=
  ⟨n * Nat.pow 2 e.toNat, Nat.pow 2 (-e).toNat⟩

def fraction (x : Dyadic) : Fraction :=
  scaled x.mantissa x.exponent

/-- The lower end of the interval of reals that round to the value. -/
def lowEnd (x : Dyadic) : Fraction :=
  scaled (4 * x.mantissa - (if x.narrow then 1 else 2)) (x.exponent - 2)

/-- The upper end of the interval of reals that round to the value. -/
def highEnd (x : Dyadic) : Fraction :=
  scaled (4 * x.mantissa + 2) (x.exponent - 2)

/-- The whole part of the value. -/
def floor (x : Dyadic) : Nat :=
  x.fraction.num / x.fraction.den

/-- The value rounded to a whole number, halves to the even neighbour. -/
def round (x : Dyadic) : Nat :=
  let f := x.fraction
  let q := f.num / f.den
  let r := f.num % f.den
  if 2 * r < f.den then q
  else if 2 * r > f.den then q + 1
  else q + q % 2

/-- The least power of ten above a positive value. -/
def decimalScale (x : Dyadic) : Int :=
  let f := x.fraction
  if f.den ≤ f.num then (Nat.toDigits 10 (f.num / f.den)).length
  else
    let d := (Nat.toDigits 10 (f.den / f.num)).length - 1
    if f.num * Nat.pow 10 d < f.den then -(d : Int) else 1 - (d : Int)

end Dyadic

/-- Order of a decimal and a fraction. -/
def Decimal.compareTo (d : Decimal) (f : Fraction) : Ordering :=
  compare (d.digits * Nat.pow 10 d.exponent.toNat * f.den) (f.num * Nat.pow 10 (-d.exponent).toNat)

/-- The decimal lies among the reals that round to the value. -/
def Dyadic.readsBack (x : Dyadic) (d : Decimal) : Bool :=
  let closed := x.mantissa % 2 == 0
  let low := d.compareTo x.lowEnd
  let high := d.compareTo x.highEnd
  (low == .gt || (closed && low == .eq)) && (high == .lt || (closed && high == .eq))

/-- The best decimal on the grid of a power of ten, if one of the value's two neighbours there reads
back. -/
def Dyadic.onGrid? (x : Dyadic) (grid : Int) : Option Decimal :=
  let f := x.fraction
  let num := f.num * Nat.pow 10 (-grid).toNat
  let den := f.den * Nat.pow 10 grid.toNat
  let below : Decimal := ⟨num / den, grid⟩
  let above : Decimal := ⟨num / den + 1, grid⟩
  match x.readsBack below, x.readsBack above with
  | true, true =>
    let twice := 2 * (num % den)
    if twice < den then some below
    else if twice > den then some above
    else if below.digits % 2 == 0 then some below else some above
  | true, false => some below
  | false, true => some above
  | false, false => none

/-- Move the trailing zeros of the digits into the exponent. -/
def Decimal.stripZeros (d : Decimal) : Decimal :=
  go d.digits d.digits d.exponent
where
  go : Nat → Nat → Int → Decimal
    | 0, n, e => ⟨n, e⟩
    | fuel + 1, n, e => if n != 0 && n % 10 == 0 then go fuel (n / 10) (e + 1) else ⟨n, e⟩

/-- The exact decimal of a value. -/
def Dyadic.exact (x : Dyadic) : Decimal :=
  let f := x.fraction
  let places := (-x.exponent).toNat
  ⟨f.num * Nat.pow 5 places, -(places : Int)⟩

/-- The decimal with the fewest digits that reads back as the value. -/
def Dyadic.shortest (x : Dyadic) : Decimal :=
  if x.mantissa == 0 then ⟨0, 0⟩
  else
    let scale := x.decimalScale
    let found := (List.range 17).findSome? fun n => x.onGrid? (scale - (n + 1 : Nat))
    (found.getD x.exact).stripZeros

end Redline
