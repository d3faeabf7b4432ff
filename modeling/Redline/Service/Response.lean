import Redline.Json.Basic

/-!
# Responses

The service answers a batch with one reply for each request.
-/

namespace Redline

/-- The reply to one request. -/
structure Reply where
  /-- The number of places where text was replaced. -/
  replaced : Int := 0
  /-- The name of a footnote that was created. -/
  footnote : Text := []
deriving Repr, DecidableEq

/-- The answer to a batch. -/
structure Response where
  replies : List Reply := []
deriving Repr, DecidableEq

namespace Response

/-- The replies of an answer in JSON; a reply that is left open is an empty object. -/
def items (j : Json) : List Json :=
  ((j.get? "replies").map Json.items).getD [] |>.map fun
    | .null => .obj []
    | reply => reply

/-- A reply in JSON. -/
def readReply (j : Json) : Reply :=
  { replaced :=
      (((j.get? "replaceAllText").bind (·.get? "occurrencesChanged")).bind Json.asInt?).getD 0
    footnote := (((j.get? "createFootnote").bind (·.get? "footnoteId")).bind Json.asText?).getD [] }

/-- An answer in JSON. -/
def ofJson (j : Json) : Response :=
  ⟨(items j).map readReply⟩

/-- An answer with nothing to tell about any request. -/
def blank (count : Nat) : Response :=
  ⟨List.replicate count {}⟩

/-- The number of places where text was replaced. -/
def occurrences (r : Response) : Int :=
  r.replies.foldl (fun count reply => count + reply.replaced) 0

/-- The name of the first footnote that was created, empty when there is none. -/
def footnote (r : Response) : Text :=
  ((r.replies.map (·.footnote)).find? (!·.isEmpty)).getD []

end Response

end Redline
