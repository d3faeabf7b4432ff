import Redline.Markdown.Table
import Redline.Session.Basic
import Redline.Table.Change

/-!
# Operations on tables

Deleting whole tables, replacing the text of cells, changing rows and columns, merging cells, and
creating tables.
-/

namespace Redline.Session

variable {σ : Type} [CharNames]

/-- The one table that cells are in. -/
def tableFor (selector : TableSelector) (tables : List Table) : Except TableError Table :=
  match selector with
  | .all => .error .severalTables
  | .position _ => do
    let places ← (selector.resolve tables.length).mapError .miss
    match places.filterMap (tables[·]?) with
    | t :: _ => return t
    | [] => throw (.miss .noTables)

/-- Delete the tables of the body that a selector finds. -/
def deleteTables (selector : TableSelector) (replacement : Text) : Run σ Outcome := do
  let doc ← Run.fetch
  let tables := doc.topTables
  let places ← Run.ofTable ((selector.resolve tables.length).mapError .miss)
  let targets := places.filterMap (tables[·]?)
  let replacement := Text.trim replacement
  if !replacement.isEmpty then throw (.table (.unsupported replacement))
  discard <| Run.update
    (targets.reverse.map fun t => Request.delete t.bounds.start t.bounds.stop)
  return [("deleted", .text (Text.ofNat targets.length ++ " table(s)".toList))]

/-- Insert, append or delete a row or column. -/
def changeLines (ref : CellRef) : Run σ Outcome := do
  let doc ← Run.fetch
  let table ← Run.ofTable (tableFor ref.table doc.tables)
  match ref.change with
  | none => throw (.table .noChange)
  | some (axis, change) =>
    let (request, description) ← Run.ofTable (table.change axis change)
    discard <| Run.update [request]
    return [("op", .text description)]

/-- The cells that a reference is about. -/
def cellsOf (table : Table) (ref : CellRef) : Except TableError (List Cell) :=
  if ref.isSingle then do return [← table.cell ⟨ref.row, ref.column⟩]
  else .ok (table.selected ref)

/-- The edits of cells: of the matches in them, or of all of their text. -/
def editsOf (e : Expression) (cells : List Cell) :
    Run σ (List (EditGroup Request)) := do
  if e.pattern.isEmpty then return cells.map (CellText.replaceWhole · e.replacement)
  let pattern ← Run.compile e
  let groups ← Run.ofLimited ((cells.mapM fun cell =>
    CellText.replaceMatches cell pattern e.replacement e.isGlobal).mapError .digits)
  return groups.flatten

/-- Replace the text of cells, or change rows and columns when that is asked for. -/
def replaceCells (ref : CellRef) (e : Expression) : Run σ Outcome := do
  if ref.isChange then return ← changeLines ref
  let doc ← Run.fetch
  let table ← Run.ofTable (tableFor ref.table doc.tables)
  let cells ← Run.ofTable (cellsOf table ref)
  let groups ← editsOf e cells
  let requests := EditGroup.order groups
  if requests.isEmpty then return [("replaced", .count 0)]
  discard <| Run.update requests
  return [("replaced", .count groups.length)]

/-- The edit of one cell among several. -/
def cellEdit (tables : List Table) (item : Nat × CellRef × Text) :
    Except TableError (EditGroup Request) :=
  let (position, ref, replacement) := item
  let cell := do (← tableFor ref.table tables).cell ⟨ref.row, ref.column⟩
  (cell.mapError (.numbered (position + 1))).map fun cell => CellText.replaceWhole cell replacement

/-- Replace the text of several cells in one batch. Positions count from zero. -/
def replaceCellBatch (items : List (Nat × CellRef × Text)) : Run σ Nat := do
  let doc ← Run.fetch
  let groups ← Run.ofTable (items.mapM (cellEdit doc.tables))
  discard <| Run.update (EditGroup.order groups)
  return groups.length

/-- Merge or split cells. -/
def mergeCells (ref : CellRef) (replacement : Text) : Run σ Outcome := do
  let doc ← Run.fetch
  let table ← Run.ofTable (tableFor ref.table doc.tables)
  let (request, description) ←
    Run.ofTable (table.merge ref (Expression.operationWord replacement))
  discard <| Run.update [request]
  return [("action", .text description)]

/-- Fill the table that was created at a place, and pin its header. -/
def finishTable (index : Int) (spec : TableSpec) : Run σ Unit := do
  if (spec.cells.getD []).isEmpty && !spec.size.header then return
  let doc ← Run.fetch
  match Table.created? doc index with
  | none => return
  | some table =>
    discard <| Run.update (table.fill (spec.cells.getD []) ++
      (if spec.size.header then [.pinHeader table.bounds.start 1] else []))

/-- Insert a table at a place. -/
def insertTable (index : Int) (spec : TableSpec) : Run σ Unit := do
  discard <| Run.update [.insertTable index spec.size.rows spec.size.columns]
  finishTable index spec

/-- The first match in a document, by its positions. -/
def firstMatch? (doc : Document) (pattern : Pattern) : Option Span :=
  doc.runs.findSome? fun run => (pattern.find? run.text).map fun m =>
    ⟨run.start + Text.units (run.text.take m.start), run.start + Text.units (run.text.take m.stop)⟩

/-- Put a table in the place of the first match. -/
def createTable (e : Expression) (spec : TableSpec) : Run σ Outcome := do
  let pattern ← Run.compile e
  let doc ← Run.fetch
  match firstMatch? doc pattern with
  | none => return [("replaced", .count 0), ("message", .text "pattern not found".toList)]
  | some span =>
    discard <| Run.update ((if span.start < span.stop then [.deleteRange span] else []) ++
      [.insertTable span.start spec.size.rows spec.size.columns])
    finishTable span.start spec
    return [("created", .text spec.sizeText)] ++
      (if (spec.cells.getD []).isEmpty then [] else [("filled", .flag true)]) ++
      (if spec.size.header then [("header", .flag true)] else [])

end Redline.Session
