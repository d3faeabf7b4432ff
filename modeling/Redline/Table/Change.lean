import Redline.Table.Cell

/-!
# Changes to tables

Inserting, appending and deleting rows and columns, merging cells, and filling a table that was just
created.
-/

namespace Redline.Table

/-- The number of lines along an axis. -/
def lineCount (t : Table) : Axis → Nat
  | .row => t.rows.length
  | .column => t.columnCount

/-- The line that a target names, counted from one; negative ones count from the end. -/
def resolveLine (axis : Axis) (target : Int) (count : Nat) (forInsert : Bool) :
    Except TableError Int :=
  let line := if target < 0 then count + target + 1 else target
  if 1 ≤ line ∧ line ≤ count then .ok line
  else .error (.lineOutOfRange axis target count forInsert)

/-- Delete a line, counted from zero. -/
def deleteLine (t : Table) : Axis → Int → Request
  | .row, i => .deleteRow t.bounds.start i
  | .column, i => .deleteColumn t.bounds.start i

/-- Insert a line next to another one, counted from zero. -/
def insertLine (t : Table) (after : Bool) : Axis → Int → Request
  | .row, i => .insertRow t.bounds.start i after
  | .column, i => .insertColumn t.bounds.start i after

/-- The request for a change of rows or columns, with its description. -/
def change (t : Table) (axis : Axis) (c : LineChange) : Except TableError (Request × Text) :=
  let count := t.lineCount axis
  let word := TableRef.axisWord axis
  match c with
  | .delete target => do
    let line ← resolveLine axis target count false
    if count ≤ 1 then throw (.onlyLine axis)
    return (t.deleteLine axis (line - 1), s!"deleted {word} {line}".toList)
  | .insert target => do
    let line ← resolveLine axis target count true
    return (t.insertLine false axis (line - 1), s!"inserted {word} before {word} {line}".toList)
  | .append _ => return (t.insertLine true axis (count - 1), s!"appended {word} at end".toList)

/-- The request that merges or splits cells, with its description. -/
def merge (t : Table) (ref : CellRef) (operation : Text) : Except TableError (Request × Text) :=
  let place := Text.ofInt ref.row ++ ',' :: Text.ofInt ref.column
  if operation == "merge".toList then
    match ref.rectangle? with
    | none => .error .mergeWithoutRange
    | some last =>
      .ok (.mergeCells
        { table := t.bounds.start, row := ref.row - 1, column := ref.column - 1
          rowSpan := last.row - ref.row + 1, columnSpan := last.column - ref.column + 1 },
        "merged [".toList ++ place ++ ':' :: Text.ofInt last.row ++ ',' :: Text.ofInt last.column ++
          [']'])
  else if operation == "unmerge".toList || operation == "split".toList then
    .ok (.unmergeCells
      { table := t.bounds.start, row := ref.row - 1, column := ref.column - 1
        rowSpan := 1, columnSpan := 1 },
      "unmerged [".toList ++ place ++ [']'])
  else .error (.unknownMerge operation)

/-- The start of the first element of a cell. -/
def cellStart? (cell : Cell) : Option Int :=
  cell.head?.map (·.bounds.start)

/-- The requests that write a text into an empty cell. -/
def fillCell (cell : Cell) (content : Text) : List Request :=
  match cellStart? cell with
  | some start =>
    if content.isEmpty then []
    else
      let (text, formats) := Markdown.read content
      CellText.write start text formats
  | none => []

/-- The requests that write texts into the cells of an empty table, the last cell first. -/
def fill (t : Table) (contents : List (List Text)) : List Request :=
  (t.rows.zip contents).reverse.flatMap fun (row, texts) =>
    (row.zip texts).reverse.flatMap fun (cell, content) => fillCell cell content

/-- The start of the first cell of a table. -/
def firstCellStart? (t : Table) : Option Int :=
  (t.rows.head?.bind (·.head?)).bind cellStart?

/-- How far behind the place of its creation the first cell of a table may start. -/
def searchWindow : Int := 10

/-- The table that was created at a place: the first one whose first cell starts shortly behind
it. -/
def created? (d : Document) (index : Int) : Option Table :=
  d.tables.find? fun t =>
    t.firstCellStart?.any fun start => index ≤ start && start ≤ index + searchWindow

end Redline.Table
