import Redline.Request.Basic

/-!
# The order of requests

Requests of one batch are carried out one after another, each on the document that the one before
has left. Edits that were computed on one copy of the document stay right when they are carried out
from the end of the document to its start, so requests are grouped by the place of their edit and
the groups are sent highest place first.
-/

namespace Redline

/-- Requests that belong to one place of the document. -/
structure EditGroup (α : Type) where
  anchor : Int
  requests : List α

namespace EditGroup

/-- Put a group before the first one that does not stand behind it in the document. -/
def place {α : Type} (g : EditGroup α) : List (EditGroup α) → List (EditGroup α)
  | [] => [g]
  | h :: rest => if h.anchor ≤ g.anchor then g :: h :: rest else h :: place g rest

/-- Groups by falling anchor; groups with one anchor keep their order. -/
def sort {α : Type} (groups : List (EditGroup α)) : List (EditGroup α) :=
  groups.foldr place []

/-- The requests of groups in the order in which they are sent. -/
def order {α : Type} (groups : List (EditGroup α)) : List α :=
  (sort groups).flatMap (·.requests)

end EditGroup

/-- What the order of requests is judged by. -/
structure Placement where
  changesLength : Bool
  start : Option Int
deriving Repr, DecidableEq

namespace Placement

/-- The positions of the requests that change the length and have a position. -/
def moving (placements : List Placement) : List Int :=
  (placements.filter (·.changesLength)).filterMap (·.start)

/-- No request that changes the length stands behind the one before it in the document. -/
def isFalling : List Int → Bool
  | a :: b :: rest => b ≤ a && isFalling (b :: rest)
  | _ => true

/-- The requests are in a safe order. -/
def isSafe (placements : List Placement) : Bool :=
  isFalling (moving placements)

/-- The placement of a request. -/
def ofRequest (r : Request) : Placement :=
  ⟨r.changesLength, r.start?⟩

/-- The kinds of requests that change the length. -/
def lengthKinds : List String :=
  ["insertText", "deleteContentRange", "insertTable", "insertInlineImage", "insertPageBreak",
    "insertSectionBreak", "createFootnote", "insertPerson"]

/-- The kind of a request in JSON: the name of its one member. -/
def kindOf (request : Json) : Text :=
  match request.members with
  | (name, _) :: _ => name
  | [] => []

/-- The position of a request in JSON. -/
def startOf (request : Json) : Option Int :=
  match request.members with
  | (_, body) :: _ =>
    match body.get? "location", body.get? "range", body.get? "tableCellLocation" with
    | some location, _, _ => (location.get? "index").bind Json.asInt?
    | none, some range, _ => (range.get? "startIndex").bind Json.asInt?
    | none, none, some cell =>
      ((cell.get? "tableStartLocation").bind (·.get? "index")).bind Json.asInt?
    | none, none, none => none
  | [] => none

/-- The placement of a request in JSON. -/
def ofJson (request : Json) : Placement :=
  ⟨lengthKinds.any fun kind => (request.get? kind).isSome, startOf request⟩

end Placement

end Redline
