import Redline.Style.Paragraph

/-!
# Requests

A request is one change that the service makes to a document. Positions are counted in index units
from the start of the body, and rows and columns from zero.
-/

namespace Redline

/-- A part of the document, from its start up to its end. -/
structure Span where
  start : Int
  stop : Int
deriving Repr, DecidableEq

/-- A rectangle of cells in the table that starts at a position. -/
structure CellBlock where
  table : Int
  row : Int
  column : Int
  rowSpan : Int
  columnSpan : Int
deriving Repr, DecidableEq

/-- The names of the list styles that are created. -/
inductive Preset where
  | disc
  | checkbox
  | numbered
  | other (name : Text)
deriving Repr, DecidableEq

namespace Preset

def name : Preset → Text
  | .disc => "BULLET_DISC_CIRCLE_SQUARE".toList
  | .checkbox => "BULLET_CHECKBOX".toList
  | .numbered => "NUMBERED_DECIMAL_NESTED".toList
  | .other name => name

end Preset

/-- One change to a document. -/
inductive Request where
  /-- Insert text at a position of the body or, if one is named, of another segment. -/
  | insertText (index : Int) (text : Text) (segment : Text)
  | deleteRange (span : Span)
  /-- Set the fields of a mask; a field without a setting is cleared. -/
  | styleText (span : Span) (settings : List TextSetting) (mask : List TextField)
  | styleParagraphs (span : Span) (settings : List ParagraphSetting)
  | createBullets (span : Span) (preset : Preset)
  | deleteBullets (span : Span)
  | replaceAllText (find replacement : Text) (matchCase byPattern : Bool)
  | insertTable (index : Int) (rows columns : Nat)
  | insertRow (table row : Int) (below : Bool)
  | insertColumn (table column : Int) (right : Bool)
  | deleteRow (table row : Int)
  | deleteColumn (table column : Int)
  | mergeCells (block : CellBlock)
  | unmergeCells (block : CellBlock)
  | pinHeader (table rows : Int)
  | insertPageBreak (index : Int)
  | insertSectionBreak (index : Int) (kind : Text)
  /-- Insert an image; a width or height of zero is left open. -/
  | insertImage (index : Int) (url : Text) (width height : Int)
  | replaceImage (id url : Text)
  | deletePositioned (id : Text)
  | createFootnote (index : Int)
  | nameRange (name : Text) (span : Span)
  | setColumns (span : Span) (columns : Nat)
  | insertPerson (index : Int) (email : Text)

namespace Request

/-- Insert text into the body. -/
def insert (index : Int) (text : Text) : Request :=
  .insertText index text []

/-- Delete a part of the body. -/
def delete (start stop : Int) : Request :=
  .deleteRange ⟨start, stop⟩

/-- Give paragraphs a named style. -/
def nameStyle (span : Span) (name : Text) : Request :=
  .styleParagraphs span [.namedStyle name]

/-- Make paragraphs a horizontal rule. -/
def rule (span : Span) : Request :=
  .styleParagraphs span ParagraphSetting.rule

/-- The name of the kind of a request. -/
def kind : Request → String
  | .insertText _ _ _ => "insertText"
  | .deleteRange _ => "deleteContentRange"
  | .styleText _ _ _ => "updateTextStyle"
  | .styleParagraphs _ _ => "updateParagraphStyle"
  | .createBullets _ _ => "createParagraphBullets"
  | .deleteBullets _ => "deleteParagraphBullets"
  | .replaceAllText _ _ _ _ => "replaceAllText"
  | .insertTable _ _ _ => "insertTable"
  | .insertRow _ _ _ => "insertTableRow"
  | .insertColumn _ _ _ => "insertTableColumn"
  | .deleteRow _ _ => "deleteTableRow"
  | .deleteColumn _ _ => "deleteTableColumn"
  | .mergeCells _ => "mergeTableCells"
  | .unmergeCells _ => "unmergeTableCells"
  | .pinHeader _ _ => "pinTableHeaderRows"
  | .insertPageBreak _ => "insertPageBreak"
  | .insertSectionBreak _ _ => "insertSectionBreak"
  | .insertImage _ _ _ _ => "insertInlineImage"
  | .replaceImage _ _ => "replaceImage"
  | .deletePositioned _ => "deletePositionedObject"
  | .createFootnote _ => "createFootnote"
  | .nameRange _ _ => "createNamedRange"
  | .setColumns _ _ => "updateSectionStyle"
  | .insertPerson _ _ => "insertPerson"

/-- The request inserts or removes index units of the body. -/
def changesLength : Request → Bool
  | .insertText _ _ _ | .deleteRange _ | .insertTable _ _ _ | .insertImage _ _ _ _
  | .insertPageBreak _ | .insertSectionBreak _ _ | .createFootnote _ | .insertPerson _ _ => true
  | _ => false

/-- The position at which a request works, if it has one. -/
def start? : Request → Option Int
  | .insertText index _ _ | .insertTable index _ _ | .insertPageBreak index
  | .insertSectionBreak index _ | .insertImage index _ _ _ | .createFootnote index
  | .insertPerson index _ => some index
  | .deleteRange span | .styleText span _ _ | .styleParagraphs span _ | .createBullets span _
  | .deleteBullets span | .nameRange _ span | .setColumns span _ => some span.start
  | .insertRow table _ _ | .insertColumn table _ _ | .deleteRow table _ | .deleteColumn table _ =>
    some table
  | .replaceAllText _ _ _ _ | .mergeCells _ | .unmergeCells _ | .pinHeader _ _ | .replaceImage _ _
  | .deletePositioned _ => none

end Request

end Redline
