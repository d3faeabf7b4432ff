import Redline.Text.Basic

/-!
# Selecting tables

A selector names one table by its signed position, or every table. Positions start at one, and
negative ones count from the last table.
-/

namespace Redline

/-- One table by its signed position, or every table. -/
inductive TableSelector where
  | all
  | position (i : Int)
deriving Repr, DecidableEq

namespace TableSelector

/-- Why a selector finds no table. -/
inductive Miss where
  | noTables
  | outOfRange (i : Int) (count : Nat)
deriving Repr, DecidableEq

def Miss.message : Miss → String
  | .noTables => "document has no tables"
  | .outOfRange i count => s!"table {i} out of range (document has {count} tables)"

/-- The tables, counted from zero, that a selector finds among so many. -/
def resolve (s : TableSelector) (count : Nat) : Except Miss (List Nat) :=
  if count = 0 then .error .noTables
  else match s with
    | .all => .ok (List.range count)
    | .position i =>
      let place := if 0 < i then i - 1 else count + i
      if 0 ≤ place ∧ place < count then .ok [place.toNat] else .error (.outOfRange i count)

/-- A selector as it is written. -/
def text : TableSelector → Text
  | .all => ['*']
  | .position i => Text.ofInt i

end TableSelector

end Redline
