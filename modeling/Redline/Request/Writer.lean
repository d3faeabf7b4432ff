import Redline.Request.Basic

/-!
# Requests in JSON

The form in which requests are sent to the service.
-/

namespace Redline

/-- A part of the document in a request. -/
def Span.toJson (s : Span) : Json :=
  .ofFields [("startIndex", .int s.start), ("endIndex", .int s.stop)]

namespace Request

/-- A position in a request. -/
def location (index : Int) : Json :=
  .ofFields [("index", .int index)]

/-- A cell in a request. -/
def cell (table row column : Int) : Json :=
  .ofFields
    [("tableStartLocation", location table), ("rowIndex", .int row), ("columnIndex", .int column)]

/-- A rectangle of cells in a request. -/
def cellBlock (b : CellBlock) : Json :=
  .ofFields
    [("tableRange",
      .ofFields
        [("tableCellLocation", cell b.table b.row b.column), ("rowSpan", .int b.rowSpan),
          ("columnSpan", .int b.columnSpan)])]

/-- Names in a field mask. -/
private def maskText (names : List String) : Json :=
  .str (Text.join [','] (names.map (·.toList)))

/-- A side of an image in a request, if it is given. -/
private def side (name : String) (points : Int) : List (String × Json) :=
  if points = 0 then [] else [(name, TextSetting.points (.int points))]

/-- The size of an image in a request, if any of it is given. -/
private def imageSize (width height : Int) : List (String × Json) :=
  match side "width" width ++ side "height" height with
  | [] => []
  | sides => [("objectSize", .ofFields sides)]

/-- What a request of its kind says. -/
def body : Request → Json
  | .insertText index text segment =>
    .ofFields
      [("location",
        .ofFields (("index", .int index) ::
          (if segment.isEmpty then [] else [("segmentId", .str segment)]))),
        ("text", .str text)]
  | .deleteRange span | .deleteBullets span => .ofFields [("range", span.toJson)]
  | .styleText span settings mask =>
    .ofFields
      [("range", span.toJson),
        ("textStyle", .ofFields (settings.map fun s => (s.field.name, s.value))),
        ("fields", maskText (mask.map (·.name)))]
  | .styleParagraphs span settings =>
    .ofFields
      [("range", span.toJson),
        ("paragraphStyle", .ofFields (settings.map fun s => (s.field, s.value))),
        ("fields", maskText (settings.map (·.field)))]
  | .createBullets span preset =>
    .ofFields [("range", span.toJson), ("bulletPreset", .str preset.name)]
  | .replaceAllText find replacement matchCase byPattern =>
    .ofFields
      [("containsText",
        .ofFields ([("text", .str find), ("matchCase", .bool matchCase)] ++
          (if byPattern then [("searchByRegex", .bool true)] else []))),
        ("replaceText", .str replacement)]
  | .insertTable index rows columns =>
    .ofFields [("location", location index), ("rows", .int rows), ("columns", .int columns)]
  | .insertRow table row below =>
    .ofFields [("tableCellLocation", cell table row 0), ("insertBelow", .bool below)]
  | .insertColumn table column right =>
    .ofFields [("tableCellLocation", cell table 0 column), ("insertRight", .bool right)]
  | .deleteRow table row => .ofFields [("tableCellLocation", cell table row 0)]
  | .deleteColumn table column => .ofFields [("tableCellLocation", cell table 0 column)]
  | .mergeCells block | .unmergeCells block => cellBlock block
  | .pinHeader table rows =>
    .ofFields [("tableStartLocation", location table), ("pinnedHeaderRowsCount", .int rows)]
  | .insertPageBreak index | .createFootnote index => .ofFields [("location", location index)]
  | .insertSectionBreak index kind =>
    .ofFields [("location", location index), ("sectionType", .str kind)]
  | .insertImage index url width height =>
    .ofFields ([("location", location index), ("uri", .str url)] ++ imageSize width height)
  | .replaceImage id url => .ofFields [("imageObjectId", .str id), ("uri", .str url)]
  | .deletePositioned id => .ofFields [("objectId", .str id)]
  | .nameRange name span => .ofFields [("name", .str name), ("range", span.toJson)]
  | .setColumns span columns =>
    .ofFields
      [("range", span.toJson),
        ("sectionStyle",
          .ofFields
            [("columnProperties",
              .arr (List.replicate columns
                (.ofFields [("paddingEnd", TextSetting.points (.real 36))]))),
              ("columnSeparatorStyle", .lit "NONE")]),
        ("fields", .lit "columnProperties,columnSeparatorStyle")]
  | .insertPerson index email =>
    .ofFields
      [("location", location index), ("personProperties", .ofFields [("email", .str email)])]

/-- Besides its place and its source, the request for an image says at most its size. -/
theorem exists_body_insertImage (index : Int) (url : Text) (width height : Int) :
    ∃ size : Option Json, body (.insertImage index url width height) =
      .ofFields ([("location", location index), ("uri", .str url)] ++
        (size.map fun sides => ("objectSize", sides)).toList) := by
  simp only [body, imageSize]
  split
  · exact ⟨none, rfl⟩
  · exact ⟨some _, rfl⟩

/-- A request as it is sent. -/
def toJson (r : Request) : Json :=
  .ofFields [(r.kind, r.body)]

end Request

end Redline
