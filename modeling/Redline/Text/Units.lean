import Redline.Text.Basic

/-!
# Index units

A document counts positions in 16-bit units: a character beyond the basic plane takes two.
-/

namespace Redline

/-- The number of index units of a character. -/
def charUnits (c : Char) : Nat :=
  if c.toNat < 0x10000 then 1 else 2

namespace Text

/-- The number of index units of a text. -/
def units : Text → Nat
  | [] => 0
  | c :: rest => charUnits c + units rest

@[simp]
theorem units_nil : units [] = 0 :=
  rfl

@[simp]
theorem units_cons (c : Char) (t : Text) : units (c :: t) = charUnits c + units t :=
  rfl

@[simp]
theorem units_append (s t : Text) : units (s ++ t) = units s + units t := by
  induction s with
  | nil => simp
  | cons c s ih => simp [ih, Nat.add_assoc]

end Text

end Redline
