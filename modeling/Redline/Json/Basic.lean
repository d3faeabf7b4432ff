import Redline.Text.Basic

/-!
# JSON values

Values of the interchange format. Whole numbers and reals are kept apart, and an object is the list
of its members in order.
-/

namespace Redline

/-- A JSON value. -/
inductive Json where
  | null
  | bool (b : Bool)
  | int (n : Int)
  | real (x : Float)
  | str (t : Text)
  | arr (items : List Json)
  | obj (members : List (Text × Json))
deriving Inhabited

namespace Json

/-- A string value from a literal. -/
def lit (s : String) : Json :=
  .str s.toList

/-- An object from literal keys. -/
def ofFields (fields : List (String × Json)) : Json :=
  .obj (fields.map fun (k, v) => (k.toList, v))

/-- An object from the members that are there. -/
def ofPresent (fields : List (Option (String × Json))) : Json :=
  ofFields (fields.filterMap id)

/-- The value of a member. -/
def get? (key : String) : Json → Option Json
  | .obj members => (members.find? (·.1 == key.toList)).map (·.2)
  | _ => none

/-- The value of a member that is neither absent nor null. -/
def field? (key : String) (j : Json) : Option Json :=
  match j.get? key with
  | some .null => none
  | v => v

def asInt? : Json → Option Int
  | .int n => some n
  | _ => none

def asBool? : Json → Option Bool
  | .bool b => some b
  | _ => none

def asText? : Json → Option Text
  | .str t => some t
  | _ => none

/-- The items of an array; other values have none. -/
def items : Json → List Json
  | .arr xs => xs
  | _ => []

/-- The members of an object; other values have none. -/
def members : Json → List (Text × Json)
  | .obj ms => ms
  | _ => []

/-- A number as a double. -/
def asReal? : Json → Option Float
  | .int n => some (Float.ofInt n)
  | .real x => some x
  | _ => none

end Json

end Redline
