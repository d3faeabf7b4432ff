import Redline.Number.Whole
import Redline.Reference.Selector

/-!
# References to cells

A cell is named by row and column, both from one on, or by an address of letters and a number. A
zero stands for every row or every column. A reference may also span a rectangle, or ask for a row
or column to be inserted, appended or deleted. The piped form of a reference is a table position
between pipes and a cell in brackets, with an optional pattern for the text inside the cells.
-/

namespace Redline

/-- A change to the rows or columns of a table. Targets count from one, negative ones from the
end. -/
inductive LineChange where
  | insert (target : Int)
  | append (target : Int)
  | delete (target : Int)
deriving Repr, DecidableEq

namespace LineChange

/-- The row or column that a change is about. -/
def target : LineChange → Int
  | .insert t => t
  | .append t => t
  | .delete t => t

/-- A change as it is written. -/
def text : LineChange → Text
  | .insert t => '+' :: Text.ofInt t
  | .append _ => "$+".toList
  | .delete t => Text.ofInt t

/-- Read a change: an append, an insert before a line, or the line to delete. -/
def read? (t : Text) : Except TooManyDigits (Option LineChange) :=
  match Text.trim t with
  | ['$', '+'] => return some (.append 0)
  | '+' :: rest => return (← Whole.read? rest).map .insert
  | t => return (← Whole.read? t).map .delete

/-- Read a change as the piped form writes it, with no blanks around the marks. -/
def readPiped? (t : Text) : Except TooManyDigits (Option LineChange) :=
  match t with
  | ['$', '+'] => return some (.append 0)
  | '+' :: rest => return (← Whole.read? rest).map .insert
  | t => return (← Whole.read? t).map .delete

end LineChange

/-- The two kinds of lines of a table. -/
inductive Axis where
  | row
  | column
deriving Repr, DecidableEq

/-- A place in a table, with row and column from one on. -/
structure Place where
  row : Int
  column : Int
deriving Repr, DecidableEq

namespace Place

/-- The number of a letter in an address, from one on. -/
def letterValue (c : Char) : Nat :=
  if 'a' ≤ c then c.toNat - 'a'.toNat + 1 else c.toNat - 'A'.toNat + 1

/-- A letter of an address. -/
def isLetter (c : Char) : Bool :=
  ('a' ≤ c && c ≤ 'z') || ('A' ≤ c && c ≤ 'Z')

/-- The column that letters name: `A` is one, `Z` is twenty-six, `AA` is twenty-seven. -/
def columnOf (letters : Text) : Nat :=
  letters.foldl (fun column c => column * 26 + letterValue c) 0

/-- Read an address of letters for the column and a number for the row. -/
def readAddress? (t : Text) : Except TooManyDigits (Option Place) :=
  let t := Text.trim t
  let letters := t.takeWhile isLetter
  match letters, Whole.digitValues? (t.dropWhile isLetter) with
  | _ :: _, some (d :: ds) => do
    let row ← Whole.ofDigits (d :: ds)
    return if row < 1 then none else some ⟨row, columnOf letters⟩
  | _, _ => return none

end Place

/-- A reference to cells of a table. -/
structure CellRef where
  table : TableSelector
  /-- The row from one on; zero stands for every row. -/
  row : Int := 0
  /-- The column from one on; zero stands for every column. -/
  column : Int := 0
  /-- The last cell of a rectangle, if one is written. -/
  corner : Option Place := none
  /-- The change to rows or columns that is asked for, if any. -/
  change : Option (Axis × LineChange) := none
  /-- The pattern for the text inside the cells, if it is not empty. -/
  inner : Text := []
deriving Repr, DecidableEq

namespace CellRef

/-- The rectangle of a reference: its last cell, when that can be the last one. -/
def rectangle? (r : CellRef) : Option Place :=
  r.corner.filter fun p => 0 < p.row && 0 < p.column

/-- The reference spans a rectangle. -/
def isRange (r : CellRef) : Bool :=
  r.rectangle?.isSome

/-- The reference asks for a change of rows or columns. -/
def isChange (r : CellRef) : Bool :=
  r.change.isSome

/-- The reference leaves the row or the column open. -/
def isWildcard (r : CellRef) : Bool :=
  !r.isChange && !r.isRange && (r.row == 0 || r.column == 0)

/-- The reference names one cell. -/
def isSingle (r : CellRef) : Bool :=
  !r.isChange && !r.isRange && 0 < r.row && 0 < r.column

/-- The change of rows or of columns that is asked for. -/
def changeOf (r : CellRef) (axis : Axis) : Option LineChange :=
  match r.change with
  | some (a, c) => if a = axis then some c else none
  | none => none

/-- The reference includes a cell. -/
def includes (r : CellRef) (p : Place) : Bool :=
  match r.rectangle? with
  | some last =>
    r.row ≤ p.row && p.row ≤ last.row && r.column ≤ p.column && p.column ≤ last.column
  | none => (r.row == 0 || r.row == p.row) && (r.column == 0 || r.column == p.column)

/-- A short name of the reference for listings. -/
def label (r : CellRef) : Text :=
  "cell |".toList ++ r.table.text ++ "|[".toList ++
    Text.ofInt r.row ++ ',' :: Text.ofInt r.column ++
    ']' :: (if r.row == 0 || r.column == 0 then " (wildcard)".toList else [])

/-- A number, or nothing when the text is not one. -/
def number (t : Text) : OptionT (Except TooManyDigits) Int :=
  Whole.read? t

/-- The parts of a text around a character, if it is there. -/
def parts (sep : Char) (t : Text) : OptionT (Except TooManyDigits) (Text × Text) :=
  OptionT.mk (pure (Text.cut? [sep] t))

/-- The number after a plus, zero when there is none. -/
def countAfterPlus (t : Text) : OptionT (Except TooManyDigits) Int :=
  OptionT.lift (return (← Whole.read? t).getD 0)

/-- Read two cells around a colon. All four numbers are looked at before any is refused. -/
def readRectangle (table : TableSelector) (first last inner : Text) :
    OptionT (Except TooManyDigits) CellRef := do
  let (row, column) ← parts ',' first
  let (lastRow, lastColumn) ← parts ',' last
  let numbers ← OptionT.lift ([row, column, lastRow, lastColumn].mapM Whole.read?)
  match numbers with
  | [some r, some c, some r', some c'] =>
    return { table, row := r, column := c, corner := some ⟨r', c'⟩, inner }
  | _ => failure

/-- Read a row and a column, each a number or a star. A plus before one of them appends a line. -/
def readPair (table : TableSelector) (row column inner : Text) :
    OptionT (Except TooManyDigits) CellRef := do
  match row with
  | '+' :: count =>
    let column ← if column == ['*'] then pure 0 else number column
    return { table, column, change := some (.row, .append (← countAfterPlus count)) }
  | _ =>
    let row ← if row == ['*'] then pure 0 else number row
    match column with
    | '+' :: count =>
      return { table, row, change := some (.column, .append (← countAfterPlus count)) }
    | _ =>
      let column ← if column == ['*'] then pure 0 else number column
      return { table, row, column, inner }

/-- Read the cell between the brackets. -/
def readCell (table : TableSelector) (cell inner : Text) :
    OptionT (Except TooManyDigits) CellRef := do
  match Text.after? "row:".toList cell, Text.after? "col:".toList cell with
  | some value, _ =>
    let change ← OptionT.mk (LineChange.readPiped? value)
    return { table, change := some (.row, change) }
  | none, some value =>
    let change ← OptionT.mk (LineChange.readPiped? value)
    return { table, change := some (.column, change) }
  | none, none =>
    match Text.cut? [':'] cell, Text.cut? [','] cell with
    | some (c :: first, last), _ => readRectangle table (c :: first) last inner
    | _, some (row, column) => readPair table (Text.trim row) (Text.trim column) inner
    | _, none =>
      let place ← OptionT.mk (Place.readAddress? cell)
      return { table, row := place.row, column := place.column, inner }

/-- Read the piped form of a reference: a table, a cell in brackets, and after a colon the pattern
for the text inside the cells. -/
def readPiped? (t : Text) : Except TooManyDigits (Option CellRef) :=
  OptionT.run do
    let '|' :: t := t | failure
    let (position, t) ← parts '|' t
    let '[' :: t := t | failure
    let (cell, after) ← parts ']' t
    let index ← number position
    if index == 0 then failure
    let inner := match after with
      | ':' :: inner => inner
      | _ => []
    readCell (.position index) cell inner

end CellRef

namespace TableSelector

/-- Read the piped form of a whole table: a position or a star between pipes. -/
def readPiped? (t : Text) : Except TooManyDigits (Option TableSelector) :=
  match Text.trim t with
  | '|' :: rest =>
    if rest.length < 2 || rest.getLast? != some '|' then return none
    else
      let inner := rest.dropLast
      if inner.contains 'x' || inner.contains 'X' then return none
      else if inner == ['*'] then return some .all
      else return (← Whole.read? inner).bind fun i => if i = 0 then none else some (.position i)
  | _ => return none

end TableSelector

end Redline
