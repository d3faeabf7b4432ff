import Redline.Document.Basic
import Redline.Markdown.Basic
import Redline.Request.Order
import Redline.Request.Styling
import Redline.Table.Error

/-!
# Cells

Looking up cells, and the edits that replace the text of a cell or parts of it. The newline at the
end of a cell stays.
-/

namespace Redline

namespace Table

/-- The number of columns, by the first row. -/
def columnCount (t : Table) : Nat :=
  match t.rows with
  | row :: _ => row.length
  | [] => 0

/-- The item at a place counted from one. -/
def nth? {α : Type} (xs : List α) (i : Int) : Option α :=
  if 1 ≤ i then xs[(i - 1).toNat]? else none

/-- The cell at a place. -/
def cell (t : Table) (p : Place) : Except TableError Cell :=
  match nth? t.rows p.row with
  | none => .error (.rowOutOfRange p.row t.rows.length)
  | some row =>
    match nth? row p.column with
    | none => .error (.columnOutOfRange p.column row.length)
    | some cell => .ok cell

/-- The cells that a reference includes, row by row. -/
def selected (t : Table) (ref : CellRef) : List Cell :=
  t.rows.zipIdx.flatMap fun (row, r) =>
    (row.zipIdx.filter fun (_, c) => ref.includes ⟨r + 1, c + 1⟩).map (·.1)

end Table

/-- The text of a cell and its positions. -/
structure CellText where
  text : Text
  start : Int
  stop : Int
deriving Repr, DecidableEq

namespace CellText

/-- The pieces of the paragraphs of a cell. -/
def pieces (cell : Cell) : List Piece :=
  (cell.filterMap Element.paragraph?).flatMap fun p => p.paragraph.pieces

/-- The text of a cell: its runs in order, from the first start that is given to the last end. -/
def ofCell (cell : Cell) : CellText :=
  let runs := (pieces cell).filter fun p => p.run?.isSome
  { text := runs.flatMap fun p => p.run?.getD []
    start := ((runs.map (·.bounds.start)).find? (0 < ·)).getD 0
    stop := ((runs.reverse.findSome? (·.bounds.stop?))).getD 0 }

/-- The end of the text that may be replaced: a newline at the end stays. -/
def deleteEnd (c : CellText) : Int :=
  if c.text.getLast? == some '\n' then c.stop - 1 else c.stop

/-- The text and formats that a template writes over a whole cell. The whole match stands for the
text of the cell. -/
def replacement (template cellText : Text) : Text × List Format :=
  Markdown.read (Text.replaceAll (Template.reference ['0']) (Text.dropEnd (· == '\n') cellText)
    (Template.literal template))

/-- Insert a text with formats. -/
def write (index : Int) (text : Text) (formats : List Format) : List Request :=
  if text.isEmpty then []
  else Request.insert index text :: Request.styleByFormats formats ⟨index, index + text.units⟩

/-- Put a text with formats in the place of another. -/
def overwrite (start stop : Int) (text : Text) (formats : List Format) : List Request :=
  (if start < stop then [Request.delete start stop] else []) ++ write start text formats

/-- The edit that writes a template over a whole cell. -/
def replaceWhole (cell : Cell) (template : Text) : EditGroup Request :=
  let c := ofCell cell
  let (text, formats) := replacement template c.text
  ⟨c.start, overwrite c.start c.deleteEnd text formats⟩

/-- The edit for one match in the text of a cell. -/
def replaceMatch (c : CellText) (template : Text) (m : Match) :
    Except TooManyDigits (EditGroup Request) := do
  let start := c.start + Text.units (c.text.take m.start)
  let stop := c.start + Text.units (c.text.take m.stop)
  let (text, formats) := Markdown.read (← Template.expand (some m) template)
  return ⟨start, overwrite start stop text formats⟩

/-- The edits for the matches in a cell: all of them, or the first. -/
def replaceMatches (cell : Cell) (pattern : Pattern) (template : Text) (isGlobal : Bool) :
    Except TooManyDigits (List (EditGroup Request)) :=
  let c := ofCell cell
  let found := pattern.findAll c.text
  (if isGlobal then found else found.take 1).mapM (replaceMatch c template)

end CellText

end Redline
