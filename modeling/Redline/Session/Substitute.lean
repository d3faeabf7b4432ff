import Redline.Document.Section
import Redline.Edit.Compile
import Redline.Session.Basic

/-!
# Substitutions

A substitution is carried out in steps, since styles, footnotes, breaks and extras concern text that
is there only after an earlier step: images, text, paragraph styles, footnotes, the break, extras.
-/

namespace Redline

/-- What a substitution has done. -/
structure Substituted where
  replaced : Nat := 0
  /-- The bullets that still have to be created. -/
  deferred : List Request := []

namespace Session

variable {σ : Type}

/-- Put an image in the place of a match. -/
def insertImage (shift : ShiftMap) (m : DocMatch) (spec : ImageSpec) : Run σ ShiftMap := do
  if m.start < m.stop then
    discard <| Run.update [Request.delete m.start m.stop]
  discard <| Run.update [.insertImage m.start spec.url spec.width spec.height]
  return ShiftMap.record shift m.start (m.stop - m.start) 1

/-- Put images in the places of matches, the last one first. Images go in batches of their own. -/
def insertImages (found : List DocMatch) : Run σ ShiftMap :=
  found.reverse.foldlM (fun shift m =>
    match m.written.image? with
    | some spec => insertImage shift m spec
    | none => return shift) []

/-- Turn a match into a footnote. -/
def insertFootnote (shifts : List ShiftMap) (shift : ShiftMap) (m : DocMatch) :
    Run σ ShiftMap := do
  let start := ShiftMap.moveThrough shifts m.start
  let stop := ShiftMap.moveThrough shifts m.stop
  let response ← Run.update [Request.delete start stop, .createFootnote start]
  let id := response.footnote
  if !id.isEmpty then
    discard <| Run.update [.insertText 1 m.written.newText id]
  return ShiftMap.record shift start (stop - start) 1

/-- Turn matches into footnotes, the last one first. -/
def insertFootnotes (shifts : List ShiftMap) (found : List DocMatch) : Run σ ShiftMap :=
  found.reverse.foldlM (insertFootnote shifts) []

/-- The text that starts last; of several the first one. -/
def lastRange? : List FormatRange → Option FormatRange
  | [] => none
  | r :: rest =>
    match lastRange? rest with
    | some s => if s.start ≤ r.start then some r else some s
    | none => some r

/-- The place for a break behind a text; it stays within the body. -/
def breakPlace (r : FormatRange) (bodyEnd : Int) : Int :=
  let index := r.stop + 1
  if bodyEnd ≠ 0 ∧ bodyEnd ≤ index then bodyEnd - 1 else index

/-- Insert the break that a directive asks for, behind the last text. -/
def insertBreak (d : Directive) (ranges : List FormatRange) : Run σ Unit := do
  if d.pageBreak.isNone then return
  match lastRange? ranges with
  | none => return
  | some r =>
    let doc ← Run.fetch
    discard <| Run.update (Request.breakAt d (breakPlace r doc.bodyEnd))

/-- The structural extras of a text. -/
def extrasOf (doc : Document) (r : FormatRange) : Run σ Extras := do
  match r.directive with
  | none => return {}
  | some d => return Extras.ofDirective d r.span (← Run.ofLimited (doc.sectionOf r.span))

/-- Requests by falling position; requests at one position keep their order. -/
def sortFalling (requests : List Request) : List Request :=
  EditGroup.order (requests.map fun r => ⟨r.start?.getD 0, [r]⟩)

/-- Add the structural extras that a directive asks for. -/
def insertExtras (d : Directive) (ranges : List FormatRange) : Run σ Unit := do
  if !d.isStructural then return
  let doc ← Run.fetch
  let extras ← ranges.mapM (extrasOf doc)
  let styles := extras.flatMap fun x => x.columns ++ x.bullets ++ x.anchors
  discard <| Run.update (styles ++ sortFalling (extras.flatMap (·.chips)))

/-- Style the paragraphs of new text, and say which bullets have to wait. -/
def styleParagraphs (edits : List Edit) : Run σ (List Request) := do
  let plan ← Run.ofLimited (ParagraphPlan.ofRanges (Edit.shift edits) (Edit.ranges edits))
  discard <| Run.update plan.now
  return plan.deferred

/-- Replace matches by their contents, in rounds that are moved by what the rounds before have done:
images, text and footnotes. Something may be done to the new text before the footnotes come. The
texts that still get extras are given where they are found in the end. -/
def replaceMatches {α : Type} (e : Expression) (found : List DocMatch)
    (style : List Edit → Run σ α) : Run σ (α × List FormatRange) := do
  let imageShift ← insertImages (found.filter (·.isImage))
  let edits ← Run.ofLimited (Edit.compile e imageShift (found.filter (·.isRegular)))
  discard <| Run.update (Edit.requests edits)
  let styled ← style edits
  let footnoteShift ← insertFootnotes [imageShift, Edit.shift edits] (found.filter (·.isFootnote))
  return (styled, (Edit.ranges edits).map (·.moveThrough [Edit.shift edits, footnoteShift]))

/-- Carry out a substitution on every match that it is about. -/
def substitute [CharNames] (e : Expression) : Run σ Substituted := do
  let pattern ← Run.compile e
  let doc ← Run.fetch
  let found ← Run.ofLimited (DocMatch.find doc pattern e)
  if found.isEmpty then return {}
  let (deferred, ranges) ← replaceMatches e found styleParagraphs
  match e.directive? with
  | some d =>
    insertBreak d ranges
    insertExtras d ranges
  | none => pure ()
  return { replaced := found.length, deferred }

end Session

end Redline
