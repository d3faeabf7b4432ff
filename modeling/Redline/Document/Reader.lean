import Redline.Document.Basic
import Redline.Json.Basic

/-!
# Reading documents

A document as the service sends it. Every member may be left out.
-/

namespace Redline

namespace Json

theorem sizeOf_of_find? {members : List (Text × Json)} {key : Text} {v : Text × Json}
    (h : members.find? (·.1 == key) = some v) : sizeOf v.2 < sizeOf members := by
  have hm := List.sizeOf_lt_of_mem (List.mem_of_find?_eq_some h)
  have : sizeOf v = 1 + sizeOf v.1 + sizeOf v.2 := by cases v; rfl
  omega

theorem sizeOf_of_get? {j v : Json} {key : String} (h : j.get? key = some v) :
    sizeOf v < sizeOf j := by
  cases j with
  | obj members =>
    obtain ⟨m, hm, rfl⟩ := Option.map_eq_some_iff.1 h
    have := sizeOf_of_find? hm
    simp only [obj.sizeOf_spec]
    omega
  | _ => simp [get?] at h

theorem sizeOf_of_mem_items {j v : Json} (h : v ∈ j.items) : sizeOf v < sizeOf j := by
  cases j with
  | arr xs =>
    have : sizeOf v < sizeOf xs := List.sizeOf_lt_of_mem h
    simp only [arr.sizeOf_spec]
    omega
  | _ => simp [items] at h

end Json

namespace Document

/-- The positions of an element. -/
def readBounds (j : Json) : Bounds :=
  ⟨(j.get? "startIndex").bind Json.asInt?, (j.get? "endIndex").bind Json.asInt?⟩

/-- A text member, empty when it is left out. -/
def readText (key : String) (j : Json) : Text :=
  ((j.get? key).bind Json.asText?).getD []

/-- The items of an array member, none when it is left out. -/
def readItems (key : String) (j : Json) : List Json :=
  ((j.get? key).map Json.items).getD []

/-- A piece of a paragraph. An object without members does not count. -/
def readPiece (j : Json) : Piece :=
  let content := match j.get? "textRun", j.get? "inlineObjectElement" with
    | some run, _ => .run (readText "content" run)
    | none, some (.obj (m :: ms)) => .image (readText "inlineObjectId" (.obj (m :: ms)))
    | none, _ => .other
  ⟨readBounds j, content⟩

/-- A paragraph. -/
def readParagraph (j : Json) : Paragraph :=
  { pieces := (readItems "elements" j).map readPiece
    list? := (j.field? "bullet").map (readText "listId") }

/-- An element, with everything in its cells. -/
def readElement (j : Json) : Element :=
  match j.get? "paragraph" with
  | some p => .paragraph (readBounds j) (readParagraph p)
  | none =>
    match _ht : j.get? "table" with
    | some table =>
      match _hr : table.get? "tableRows" with
      | some rows =>
        .table (readBounds j) <| rows.items.attach.map fun ⟨row, _⟩ =>
          match _hc : row.get? "tableCells" with
          | some cells =>
            cells.items.attach.map fun ⟨cell, _⟩ =>
              match _he : cell.get? "content" with
              | some content => content.items.attach.map fun ⟨e, _⟩ => readElement e
              | none => []
          | none => []
      | none => .table (readBounds j) []
    | none =>
      match j.get? "sectionBreak" with
      | some _ => .sectionBreak (readBounds j)
      | none => .other (readBounds j)
termination_by sizeOf j
decreasing_by
  rename_i hrow hcell he
  have h1 := Json.sizeOf_of_get? _ht
  have h2 := Json.sizeOf_of_get? _hr
  have h3 := Json.sizeOf_of_mem_items hrow
  have h4 := Json.sizeOf_of_get? _hc
  have h5 := Json.sizeOf_of_mem_items hcell
  have h6 := Json.sizeOf_of_get? _he
  have h7 := Json.sizeOf_of_mem_items he
  omega

/-- The glyphs of numbered lists. -/
def numberedGlyphs : List String :=
  ["DECIMAL", "ZERO_DECIMAL", "ALPHA", "UPPER_ALPHA", "ROMAN", "UPPER_ROMAN"]

/-- The items of a list are numbered: the glyph of its first level is a number or a letter. -/
def readNumbered (list : Json) : Bool :=
  match ((list.get? "listProperties").map (readItems "nestingLevels")).getD [] with
  | level :: _ => numberedGlyphs.any (·.toList == readText "glyphType" level)
  | [] => false

/-- The alternative text of an object: its title, or else its description. -/
def readAlt (properties : String) (object : Json) : Text :=
  let embedded := ((object.get? properties).bind (·.get? "embeddedObject")).getD .null
  let title := readText "title" embedded
  if title.isEmpty then readText "description" embedded else title

/-- The members of a map, none when it is left out. -/
def readMap {α : Type} (key : String) (read : Json → α) (j : Json) : List (Text × α) :=
  (((j.get? key).map Json.members).getD []).map fun (name, v) => (name, read v)

/-- A document. -/
def ofJson (j : Json) : Document :=
  { body := (((j.get? "body").map (readItems "content")).getD []).map readElement
    lists := readMap "lists" readNumbered j
    inlineObjects := readMap "inlineObjects" (readAlt "inlineObjectProperties") j
    positionedObjects := readMap "positionedObjects" (readAlt "positionedObjectProperties") j }

end Document

end Redline
