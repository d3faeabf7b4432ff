import Redline.Reference.Table
import Redline.Text.Quoted

/-!
# Operations that a table does not allow
-/

namespace Redline

/-- Why an operation on tables or cells is refused. -/
inductive TableError where
  | miss (cause : TableSelector.Miss)
  /-- Cells are named in all tables at once. -/
  | severalTables
  | rowOutOfRange (row : Int) (rows : Nat)
  | columnOutOfRange (column : Int) (columns : Nat)
  /-- The line of a change, with the number of lines of the table. -/
  | lineOutOfRange (axis : Axis) (target : Int) (count : Nat) (forInsert : Bool)
  | onlyLine (axis : Axis)
  | unsupported (replacement : Text)
  | noChange
  | mergeWithoutRange
  | unknownMerge (operation : Text)
  /-- The expression at a position, counted from one. -/
  | numbered (position : Nat) (cause : TableError)
deriving Repr, DecidableEq

namespace TableError

/-- The short word for a line of an axis. -/
private def lineWord : Axis → String
  | .row => "row"
  | .column => "col"

def message : TableError → String
  | .miss cause => cause.message
  | .severalTables => "cell operations need a single table (|*| only supports whole-table delete)"
  | .rowOutOfRange row rows => s!"row {row} out of range (table has {rows} rows)"
  | .columnOutOfRange column columns =>
    s!"col {column} out of range (row has {columns} columns)"
  | .lineOutOfRange axis target count forInsert =>
    let purpose := if forInsert then " for insert" else ""
    s!"{lineWord axis} {target} out of range{purpose} (table has {count} {TableRef.axisWord axis}s)"
  | .onlyLine axis => s!"cannot delete the only {TableRef.axisWord axis} in a table"
  | .unsupported replacement =>
    s!"unsupported table operation: {Text.quote replacement} " ++
      "(expected empty replacement for delete)"
  | .noChange => "no row/column operation to perform"
  | .mergeWithoutRange => "merge requires a range: |N|[r1,c1:r2,c2]"
  | .unknownMerge operation =>
    s!"unknown merge operation {Text.quote operation} (expected merge, unmerge, or split)"
  | .numbered position cause => s!"expression {position}: {cause.message}"

end TableError

end Redline
