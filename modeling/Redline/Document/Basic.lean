import Redline.Text.Units

/-!
# Documents

A document is a list of elements: paragraphs, tables, section breaks and others. The cells of a
table hold elements again. Positions are counted in index units; a document may leave out any of
them.
-/

namespace Redline

/-- The positions that an element gives for itself. -/
structure Bounds where
  start? : Option Int := none
  stop? : Option Int := none
deriving Repr, DecidableEq

namespace Bounds

/-- The start, zero when it is left out. -/
def start (b : Bounds) : Int :=
  b.start?.getD 0

/-- The end, zero when it is left out. -/
def stop (b : Bounds) : Int :=
  b.stop?.getD 0

end Bounds

/-- What a piece of a paragraph is. -/
inductive Content where
  /-- Text of one style. -/
  | run (text : Text)
  /-- An image that stands in the text, by the name of its object. -/
  | image (id : Text)
  | other
deriving Repr, DecidableEq

/-- A piece of a paragraph. -/
structure Piece where
  bounds : Bounds
  content : Content
deriving Repr, DecidableEq

namespace Piece

/-- The text of a run. -/
def run? (p : Piece) : Option Text :=
  match p.content with
  | .run text => some text
  | _ => none

end Piece

/-- A paragraph. -/
structure Paragraph where
  pieces : List Piece
  /-- The name of the list that the paragraph is an item of. -/
  list? : Option Text := none
deriving Repr, DecidableEq

namespace Paragraph

/-- The text of a paragraph. -/
def text (p : Paragraph) : Text :=
  p.pieces.flatMap fun piece => piece.run?.getD []

/-- The text of the first run. -/
def firstRun? (p : Paragraph) : Option Text :=
  p.pieces.findSome? Piece.run?

end Paragraph

/-- An element of a document. -/
inductive Element where
  | paragraph (bounds : Bounds) (p : Paragraph)
  /-- A table by its rows; a row is a list of cells, and a cell a list of elements. -/
  | table (bounds : Bounds) (rows : List (List (List Element)))
  | sectionBreak (bounds : Bounds)
  | other (bounds : Bounds)

/-- The content of a cell. -/
abbrev Cell := List Element

/-- The cells of a row. -/
abbrev Row := List Cell

/-- A paragraph with its positions. -/
structure PlacedParagraph where
  bounds : Bounds
  paragraph : Paragraph

/-- A table with its positions. -/
structure Table where
  bounds : Bounds
  rows : List Row

namespace Element

/-- The positions of an element. -/
def bounds : Element → Bounds
  | .paragraph b _ => b
  | .table b _ => b
  | .sectionBreak b => b
  | .other b => b

/-- The paragraph that an element is. -/
def paragraph? : Element → Option PlacedParagraph
  | .paragraph b p => some ⟨b, p⟩
  | _ => none

/-- The table that an element is. -/
def table? : Element → Option Table
  | .table b rows => some ⟨b, rows⟩
  | _ => none

mutual

/-- The paragraphs of an element, those in the cells of tables included. -/
def paragraphs : Element → List PlacedParagraph
  | .paragraph b p => [⟨b, p⟩]
  | .table _ rows => paragraphsOfRows rows
  | .sectionBreak _ => []
  | .other _ => []

/-- The paragraphs of elements in order. -/
def paragraphsOf : List Element → List PlacedParagraph
  | [] => []
  | e :: es => paragraphs e ++ paragraphsOf es

/-- The paragraphs of the cells of a row. -/
def paragraphsOfRow : List (List Element) → List PlacedParagraph
  | [] => []
  | cell :: cells => paragraphsOf cell ++ paragraphsOfRow cells

/-- The paragraphs of the rows of a table. -/
def paragraphsOfRows : List (List (List Element)) → List PlacedParagraph
  | [] => []
  | row :: rows => paragraphsOfRow row ++ paragraphsOfRows rows

end

mutual

/-- The tables of an element: the table that it is, and those in its cells. -/
def tables : Element → List Table
  | .table b rows => ⟨b, rows⟩ :: tablesOfRows rows
  | .paragraph _ _ => []
  | .sectionBreak _ => []
  | .other _ => []

/-- The tables of elements in order. -/
def tablesOf : List Element → List Table
  | [] => []
  | e :: es => tables e ++ tablesOf es

/-- The tables of the cells of a row. -/
def tablesOfRow : List (List Element) → List Table
  | [] => []
  | cell :: cells => tablesOf cell ++ tablesOfRow cells

/-- The tables of the rows of a table. -/
def tablesOfRows : List (List (List Element)) → List Table
  | [] => []
  | row :: rows => tablesOfRow row ++ tablesOfRows rows

end

end Element

/-- A document. -/
structure Document where
  body : List Element := []
  /-- The lists by their names, each with whether its items are numbered. -/
  lists : List (Text × Bool) := []
  /-- The alternative texts of the objects that stand in the text. -/
  inlineObjects : List (Text × Text) := []
  /-- The alternative texts of the objects that are placed on the page. -/
  positionedObjects : List (Text × Text) := []

namespace Document

/-- The end of the body, zero when it is empty. -/
def bodyEnd (d : Document) : Int :=
  match d.body.getLast? with
  | some e => e.bounds.stop
  | none => 0

/-- Every paragraph in order, those in cells included. -/
def paragraphs (d : Document) : List PlacedParagraph :=
  Element.paragraphsOf d.body

/-- The paragraphs that stand in the body itself. -/
def topParagraphs (d : Document) : List PlacedParagraph :=
  d.body.filterMap Element.paragraph?

/-- Every table in order, a table before those in its cells. -/
def tables (d : Document) : List Table :=
  Element.tablesOf d.body

/-- The tables that stand in the body itself. -/
def topTables (d : Document) : List Table :=
  d.body.filterMap Element.table?

/-- Text of one style with its start. -/
structure Run where
  text : Text
  start : Int
deriving Repr, DecidableEq

/-- The run that a piece is, unless it is empty. -/
def runOf? (p : Piece) : Option Run :=
  match p.run? with
  | some (c :: rest) => some ⟨c :: rest, p.bounds.start⟩
  | _ => none

/-- Every run of text in order. -/
def runs (d : Document) : List Run :=
  d.paragraphs.flatMap fun p => p.paragraph.pieces.filterMap runOf?

/-- The body has no table, and no text but blanks. -/
def isEmpty (d : Document) : Bool :=
  d.topTables.isEmpty && d.topParagraphs.all fun p => p.paragraph.text.all isBlank

/-- A paragraph of the body by its positions and its text without the newline at its end. -/
structure Line where
  start : Int
  stop : Int
  text : Text
deriving Repr, DecidableEq

/-- The paragraphs of the body as lines. -/
def lines (d : Document) : List Line :=
  d.topParagraphs.map fun p =>
    let text := p.paragraph.text
    ⟨p.bounds.start, p.bounds.stop, if text.getLast? == some '\n' then text.dropLast else text⟩

end Document

end Redline
