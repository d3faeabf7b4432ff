import Redline.Reference.Table

/-!
# Tables in replacements

A replacement may be the size of a table between pipes, or a table written with pipes, row by row.
-/

namespace Redline

/-- A table to create, with the contents of its cells if there are any. -/
structure TableSpec where
  size : TableSize
  cells : Option (List (List Text)) := none
deriving Repr, DecidableEq

namespace TableSpec

/-- The size and the header that stand between the pipes. -/
private def splitHeader? (inner : Text) : Option (Text × Bool) :=
  match Text.cut? [':'] inner with
  | none => some (inner, false)
  | some (size, suffix) =>
    if lower (Text.trim suffix) == "header".toList then some (size, true) else none

/-- The digits of a number with blanks around it. -/
private def digits? (t : Text) : Option (List Nat) :=
  match Whole.digitValues? (Text.trim t) with
  | some (d :: ds) => some (d :: ds)
  | _ => none

/-- Read a size between pipes, with an optional header. -/
def readSize? (t : Text) : Except TooManyDigits (Option TableSize) :=
  match Text.trim t with
  | '|' :: rest =>
    if rest.length < 3 || rest.getLast? != some '|' then return none
    else
      let parts := do
        let (size, header) ← splitHeader? rest.dropLast
        let (rows, columns) ← Text.cut? ['x'] (lower size)
        return (← digits? rows, ← digits? columns, header)
      match parts with
      | none => return none
      | some (rows, columns, header) => do
        let rows ← Whole.ofDigits rows
        let columns ← Whole.ofDigits columns
        return if 1 ≤ rows ∧ rows ≤ TableSize.maxRows ∧ 1 ≤ columns ∧ columns ≤ TableSize.maxColumns
          then some { rows, columns, header } else none
  | _ => return none

/-- A character of the cells of a separating row. -/
def isSeparator (c : Char) : Bool :=
  c == '-' || c == ':' || c == ' '

/-- The cells of a line. Empty cells are left out. -/
def lineCells (line : Text) : List Text :=
  ((Text.fields '|' line).map Text.trim).filter (!·.isEmpty)

/-- A line with a cell of only separators divides the header from the rows and has no content. -/
def isSeparatorLine (line : Text) : Bool :=
  (lineCells line).any (·.all isSeparator)

/-- A row with exactly so many cells. -/
def fit (width : Nat) (cells : List Text) : List Text :=
  (cells ++ List.replicate width []).take width

/-- Read a table that is written with pipes. All rows take the width of the first one. -/
def readPipes? (t : Text) : Option TableSpec := do
  let t := Text.trim (Text.replaceAll "\\n".toList ['\n'] t)
  let lines := ((Text.fields '\n' t).map Text.trim).filter (!·.isEmpty)
  if !Text.startsWith ['|'] t || !lines.all (Text.startsWith ['|']) then failure
  let rows := (lines.filter (!isSeparatorLine ·)).map lineCells
  if rows.any (·.isEmpty) then failure
  match rows with
  | [] => failure
  | first :: _ =>
    some
      { size := { rows := rows.length, columns := first.length }
        cells := some (rows.map (fit first.length)) }

/-- Read a table in either form. -/
def read? (t : Text) : Except TooManyDigits (Option TableSpec) := do
  match ← readSize? t with
  | some size => return some { size }
  | none => return readPipes? t

/-- The size as it is shown in reports. -/
def sizeText (spec : TableSpec) : Text :=
  Text.ofNat spec.size.rows ++ 'x' :: Text.ofNat spec.size.columns ++ " table".toList

end TableSpec

end Redline
