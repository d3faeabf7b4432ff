import Redline.Session.Tables

/-!
# Inserting at a place of the document

Inserting at the start or the end of the body, and filling or clearing the document.
-/

namespace Redline.Session

variable {σ : Type}

/-- Insert a table, an image or text at a place, and say what was inserted. -/
def insertAt (index : Int) (replacement : Text) : Run σ Text := do
  match ← Run.ofLimited ((TableSpec.read? replacement).mapError .digits) with
  | some spec =>
    insertTable index spec
    return if (spec.cells.getD []).isEmpty then spec.sizeText
      else spec.sizeText ++ " (filled)".toList
  | none =>
  match ImageSpec.read? replacement with
  | some image =>
    discard <| Run.update [.insertImage index image.url image.width image.height]
    return "image".toList
  | none =>
    let (text, formats) := Markdown.read (Template.literal replacement)
    if text.isEmpty then return "0 chars".toList
    let span : Span := ⟨index, index + text.units⟩
    discard <| Run.update (Request.insert index text :: Request.styleByFormats formats span ++
      Request.resetParagraphs span ++ Request.styleParagraphsByFormats formats span)
    return Text.ofNat text.length ++ " chars".toList

/-- Clear the body, except for the newline at its end. -/
def clear (bodyEnd : Int) (isEmpty : Bool) : Run σ Outcome := do
  let stop := bodyEnd - 1
  if isEmpty || stop < 2 then return [("cleared", .count 0)]
  discard <| Run.update [Request.delete 1 stop]
  return [("cleared", .count (stop - 1))]

/-- Run an expression that inserts at a place: at the start, at the end, or in an empty document. An
empty replacement for the empty document clears it. -/
def runPositional (e : Expression) : Run σ Outcome := do
  let doc ← Run.fetch
  let bodyEnd := max doc.bodyEnd 2
  let wholeDocument := e.pattern == ['^', '$']
  if wholeDocument && e.replacement.isEmpty then return ← clear bodyEnd doc.isEmpty
  if wholeDocument && !doc.isEmpty then
    return [("replaced", .count 0), ("message", .text "document is not empty".toList)]
  let index := if wholeDocument || e.pattern == ['^'] then 1 else max (bodyEnd - 1) 1
  return [("inserted", .text (← insertAt index e.replacement))]

end Redline.Session
