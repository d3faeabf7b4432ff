import Redline.Directive.Block
import Redline.Limit
import Redline.Reference.Cell
import Redline.Reference.Image
import Redline.Text.Case

/-!
# References in braces

A table reference is the size of a table to create, or a table with an optional part for its cells:
every cell, a change of rows or columns, a rectangle, a row and a column, or an address. A pattern
may open with a table reference or an image reference in braces.
-/

namespace Redline

/-- The size of a table to create. -/
structure TableSize where
  rows : Nat
  columns : Nat
  /-- The first row is a header. -/
  header : Bool := false
deriving Repr, DecidableEq

namespace TableSize

def maxRows : Nat := 100
def maxColumns : Nat := 26

/-- The size between pipes, as a replacement writes it. -/
def piped (s : TableSize) : Text :=
  '|' :: Text.ofNat s.rows ++ 'x' :: Text.ofNat s.columns ++
    (if s.header then ":header|".toList else ['|'])

end TableSize

/-- The part of a table reference that names cells. -/
inductive CellSpec where
  /-- Nothing: the table as a whole. -/
  | whole
  /-- A star: every cell. -/
  | every
  /-- A change of rows or columns, as it is written. -/
  | change (axis : Axis) (written : Text)
  | rectangle (first last : Place)
  /-- A row and a column; a star in place of one leaves it open. -/
  | pair (row column : Option Int)
  /-- An address, and as it is written. -/
  | address (place : Place) (written : Text)
deriving Repr, DecidableEq

/-- The row and column of a cell part, where zero stands for one that is not named. -/
def CellSpec.place : CellSpec → Place
  | .whole | .every | .change _ _ => ⟨0, 0⟩
  | .rectangle first _ => first
  | .pair row column => ⟨row.getD 0, column.getD 0⟩
  | .address p _ => p

/-- A table reference in braces. -/
inductive TableRef where
  | create (size : TableSize)
  | existing (table : TableSelector) (cells : CellSpec)
deriving Repr, DecidableEq

/-- What an expression is about. -/
inductive Target where
  /-- The text of the document. -/
  | text
  | tables (selector : TableSelector)
  | cells (ref : CellRef)
deriving Repr, DecidableEq

namespace TableRef

/-- What is wrong with a table reference. -/
inductive Error where
  | empty
  | badSuffix (suffix : Text)
  | badSize (spec : Text)
  | badRowCount (spec : Text)
  | badColumnCount (spec : Text)
  | badIndex (index : Text)
  | zeroIndex
  | badRow (row : Text)
  | badColumn (column : Text)
  | badCell (cell : Text)
  | badCellSpec (spec : Text)
  | emptyChange (axis : Axis)
  | badChange (axis : Axis) (change : Text)
  | badRangeStart (start : Text) (cause : Error)
  | badRangeEnd (stop : Text) (cause : Error)
deriving Repr, DecidableEq

/-- The word for an axis in messages. -/
def axisWord : Axis → String
  | .row => "row"
  | .column => "column"

def Error.message : Error → String
  | .empty => "empty table spec"
  | .badSuffix s => s!"invalid table create suffix {Text.quote s} (expected 'header')"
  | .badSize s => s!"invalid table create spec {Text.quote s}"
  | .badRowCount s => s!"invalid row count in {Text.quote s} (must be 1-{TableSize.maxRows})"
  | .badColumnCount s =>
    s!"invalid column count in {Text.quote s} (must be 1-{TableSize.maxColumns})"
  | .badIndex s => s!"invalid table index {Text.quote s}"
  | .zeroIndex => "table index cannot be 0; use * for all"
  | .badRow s => s!"invalid row {Text.quote s}"
  | .badColumn s => s!"invalid col {Text.quote s}"
  | .badCell s => s!"invalid cell reference {Text.quote s}"
  | .badCellSpec s => s!"invalid cell spec {Text.quote s}"
  | .emptyChange axis => s!"empty {axisWord axis} operation"
  | .badChange axis s => s!"invalid {axisWord axis} operation {Text.quote s}"
  | .badRangeStart s e => s!"invalid range start {Text.quote s}: {e.message}"
  | .badRangeEnd s e => s!"invalid range end {Text.quote s}: {e.message}"

/-- Reading a table reference. -/
abbrev Read (α : Type) := Except (Refusal Error) α

def refuse {α : Type} (e : Error) : Read α :=
  .error (.because e)

/-- A number, or the refusal for its absence. -/
def number (t : Text) (otherwise : Error) : Read Int := do
  match ← Refusal.ofNumber (Whole.read? t) with
  | some n => return n
  | none => refuse otherwise

/-- The text is about the size of a table to create. -/
def isSize (spec : Text) : Bool :=
  !spec.contains '!' && (spec.contains 'x' || spec.contains 'X') &&
    match spec with
    | c :: _ => isDigitLike c
    | [] => false

/-- A number of lines within a limit. -/
def lineCount (t : Text) (limit : Nat) (otherwise : Error) : Read Nat := do
  let n ← number t otherwise
  if 1 ≤ n ∧ n ≤ limit then return n.toNat else refuse otherwise

/-- Read the size of a table to create. -/
def readSize (spec : Text) : Read TableSize := do
  let (spec, header) ← match Text.cut? [':'] spec with
    | some (spec, suffix) =>
      let suffix := lower (Text.trim suffix)
      if suffix == "header".toList then pure (spec, true) else refuse (.badSuffix suffix)
    | none => pure (spec, false)
  match Text.cut? ['x'] (lower spec) with
  | none => refuse (.badSize spec)
  | some (rows, columns) =>
    let rows ← lineCount rows TableSize.maxRows (.badRowCount spec)
    let columns ← lineCount columns TableSize.maxColumns (.badColumnCount spec)
    return { rows, columns, header }

/-- Read a cell: a row and a column, or an address. -/
def readPlace (t : Text) : Read Place := do
  let t := Text.trim t
  match Text.cut? [','] t with
  | some (row, column) =>
    let row ← number row (.badRow (Text.trim row))
    let column ← number column (.badColumn (Text.trim column))
    return ⟨row, column⟩
  | none =>
    match ← Refusal.ofNumber (Place.readAddress? t) with
    | some place => return place
    | none => refuse (.badCell t)

/-- A line number, or nothing for a star. -/
def lineOrStar (t : Text) (otherwise : Error) : Read (Option Int) :=
  if t == ['*'] then return none else return some (← number t otherwise)

/-- Read the change of an axis; there must be one. -/
def readChange (axis : Axis) (value : Text) : Read CellSpec :=
  let value := Text.trim value
  if value.isEmpty then refuse (.emptyChange axis) else return .change axis value

/-- Read the part of a table reference that names cells. -/
def readCells (spec : Text) : Read CellSpec := do
  let spec := Text.trim spec
  if spec.isEmpty then return .whole
  if spec == ['*'] then return .every
  if let some value := Text.after? "row=".toList spec then return ← readChange .row value
  if let some value := Text.after? "col=".toList spec then return ← readChange .column value
  if let some (start, stop) := Text.cut? [':'] spec then
    let first ← refuseAs (.badRangeStart (Text.trim start)) (readPlace start)
    let last ← refuseAs (.badRangeEnd (Text.trim stop)) (readPlace stop)
    return .rectangle first last
  if let some (row, column) := Text.cut? [','] spec then
    let row ← lineOrStar (Text.trim row) (.badRow (Text.trim row))
    let column ← lineOrStar (Text.trim column) (.badColumn (Text.trim column))
    return .pair row column
  match ← Refusal.ofNumber (Place.readAddress? spec) with
  | some place => return .address place spec
  | none => refuse (.badCellSpec spec)

/-- Read the value of a table reference in braces. -/
def read (value : Text) : Read TableRef := do
  let value := Text.trim value
  if value.isEmpty then refuse .empty
  else if isSize value then return .create (← readSize value)
  else
    let (table, cells) := (Text.cut? ['!'] value).getD (value, [])
    let selector ←
      if table == ['*'] then pure TableSelector.all
      else do
        let i ← number table (.badIndex table)
        if i = 0 then refuse .zeroIndex else pure (.position i)
    return .existing selector (← readCells cells)

/-- The reference is about tables as a whole. -/
def isWhole : TableRef → Bool
  | .create _ => false
  | .existing _ cells =>
    match cells with
    | .whole => true
    | .every | .change _ _ | .rectangle _ _ => false
    | .pair none none => false
    | cells => cells.place == ⟨0, 0⟩

/-- The size of the table to create, if that is what the reference is about. -/
def size? : TableRef → Option TableSize
  | .create size => some size
  | .existing _ _ => none

/-- The words for the cells of a reference. -/
private def cellsText : CellSpec → List Text
  | .whole => []
  | .every | .pair none none => ["cells:*".toList]
  | .rectangle first last =>
    ["range:[".toList ++ Text.ofInt first.row ++ ',' :: Text.ofInt first.column ++
      ':' :: Text.ofInt last.row ++ ',' :: Text.ofInt last.column ++ [']']]
  | .pair (some row) none => ["row:".toList ++ Text.ofInt row ++ ",*".toList]
  | .pair none (some column) => ["col:*,".toList ++ Text.ofInt column]
  | .change .row written => ["rowOp:".toList ++ written]
  | .change .column written => ["colOp:".toList ++ written]
  | .pair (some row) (some column) | .address ⟨row, column⟩ _ =>
    if 0 < row || 0 < column then
      ["cell:[".toList ++ Text.ofInt row ++ ',' :: Text.ofInt column ++ [']']]
    else []

/-- The reference in words. -/
def text (r : TableRef) : Text :=
  let words := match r with
    | .create size =>
      ("create:".toList ++ Text.ofNat size.rows ++ 'x' :: Text.ofNat size.columns) ::
        (if size.header then ["header".toList] else [])
    | .existing table cells => ("table:".toList ++ table.text) :: cellsText cells
  "\x7bT=".toList ++ Text.join [' '] words ++ ['\x7d']

/-- What an expression with the reference is about. A table to create has no target of its own. -/
def target (r : TableRef) : Read Target :=
  match r with
  | .create _ => return .text
  | .existing table cells =>
    if r.isWhole then return .tables table
    else match cells with
      | .change axis written => do
        match ← Refusal.ofNumber (LineChange.read? written) with
        | some change => return .cells { table, change := some (axis, change) }
        | none => refuse (.badChange axis written)
      | .rectangle first last =>
        return .cells { table, row := first.row, column := first.column, corner := some last }
      | cells =>
        let p := cells.place
        return .cells { table, row := p.row, column := p.column }

end TableRef

/-- A reference in braces at the start of a pattern. -/
inductive LeadingRef where
  | table (ref : TableRef)
  | image (ref : ImageRef)

namespace LeadingRef

/-- What is wrong with a reference in braces. -/
inductive Error where
  | table (cause : TableRef.Error)
  | image (cause : ImageRef.Error)
deriving Repr, DecidableEq

def Error.message : Error → String
  | .table e => "parse table ref: " ++ e.message
  | .image e => "parse image ref: " ++ e.message

/-- Take a reference in braces off the start of a pattern. -/
def detect [CharNames] (pattern : Text) :
    Except (Refusal Error) (Text × Option LeadingRef) := do
  let pattern := Text.trim pattern
  match Block.split? pattern with
  | none => return (pattern, none)
  | some (content, rest) =>
    match Text.after? "T=".toList content, Text.after? "img=".toList content with
    | some value, _ =>
      return (Text.trim rest, some (.table (← refuseAs .table (TableRef.read value))))
    | none, some value =>
      return (Text.trim rest, some (.image (← refuseAs .image (ImageRef.read value))))
    | none, none => return (pattern, none)

end LeadingRef

end Redline
