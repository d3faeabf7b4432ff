import Redline.Edit.Match
import Redline.Request.Order
import Redline.Request.Shift
import Redline.Request.Styling

/-!
# Edits for matches

Each match becomes one group of requests: the old text is deleted, the new text is inserted, and its
style is set. Paragraph styles follow in a batch of their own, at positions that are moved by the
changes of length of the first one.
-/

namespace Redline

/-- Inserted text that still gets paragraph styles or structural extras. -/
structure FormatRange where
  start : Int
  length : Nat
  formats : List Format
  /-- The text starts with a tab. -/
  hasTab : Bool
  directive : Option Directive

namespace FormatRange

/-- The end of the text. -/
def stop (r : FormatRange) : Int :=
  r.start + r.length

/-- The part of the document that the text takes up. -/
def span (r : FormatRange) : Span :=
  ⟨r.start, r.stop⟩

/-- The text where it is found after several batches, the oldest first. -/
def moveThrough (shifts : List ShiftMap) (r : FormatRange) : FormatRange :=
  { r with start := ShiftMap.moveThrough shifts r.start }

end FormatRange

/-- What one match becomes. -/
structure Edit where
  group : EditGroup Request
  /-- The number of units that are taken away, and put in their place. -/
  old : Int
  new : Int
  range : Option FormatRange := none

namespace Edit

/-- The formats of inserted text; a code block is also set as code. -/
def fullFormats (formats : List Format) : List Format :=
  if formats.contains .codeBlock then formats ++ [.code] else formats

/-- The style of inserted text, by its directive and its blocks, or by its formats. -/
def style (e : Expression) (m : DocMatch) (formats : List Format) (span : Span) :
    Except Limit (List Request) :=
  match m.written.directive? with
  | some d => do
    let blocks ← (Request.styleBlocks e.blocks span.start e.replacement (some m.found)).mapError
      .digits
    return Request.styleByDirective d span ++ blocks
  | none => return Request.styleByFormats formats span

/-- The edit for a match. Its positions are moved by the changes of length since it was found. -/
def ofMatch (e : Expression) (previous : ShiftMap) (m : DocMatch) : Except Limit Edit := do
  let start := ShiftMap.move previous m.start
  let stop := ShiftMap.move previous m.stop
  let removal := if start < stop then [Request.delete start stop] else []
  if m.written.formats.contains .rule then
    return {
      group := ⟨start, removal ++ [Request.insert start ['\n'], Request.rule ⟨start, start + 1⟩]⟩
      old := stop - start
      new := 1 }
  let text := m.written.newText
  let length := text.units
  if text.isEmpty then return { group := ⟨start, removal⟩, old := stop - start, new := 0 }
  let plain := removal ++ [Request.insert start text]
  if m.written.formats.isEmpty && m.written.directive?.isNone then
    return { group := ⟨start, plain⟩, old := stop - start, new := length }
  let formats := fullFormats m.written.formats
  let styles ← style e m formats ⟨start, start + length⟩
  return {
    group := ⟨start, plain ++ styles⟩
    old := stop - start
    new := length
    range := some
      { start, length, formats, hasTab := Text.startsWith ['\t'] text
        directive := m.written.directive? } }

/-- The changes of length of edits. -/
def shift (edits : List Edit) : ShiftMap :=
  edits.foldl (fun map edit => ShiftMap.record map edit.group.anchor edit.old edit.new) []

/-- The requests of edits in a safe order. -/
def requests (edits : List Edit) : List Request :=
  EditGroup.order (edits.map (·.group))

/-- The texts of edits that still get styles. -/
def ranges (edits : List Edit) : List FormatRange :=
  edits.filterMap (·.range)

/-- The edits for matches that become text. -/
def compile (e : Expression) (previous : ShiftMap) (found : List DocMatch) :
    Except Limit (List Edit) :=
  found.mapM (ofMatch e previous)

end Edit

/-- Paragraph styles: what can be done now, and the bullets that have to wait for their
neighbours. -/
structure ParagraphPlan where
  now : List Request := []
  deferred : List Request := []

namespace ParagraphPlan

/-- The request creates bullets. -/
def createsBullets : Request → Bool
  | .createBullets _ _ => true
  | _ => false

/-- The paragraph styles that the formats of a text ask for. Bullets of a text that starts with a
tab have to wait. -/
def ofFormats (r : FormatRange) (span : Span) : ParagraphPlan :=
  match Request.styleParagraphsByFormats r.formats span with
  | [] => {}
  | styles =>
    let waits (request : Request) : Bool := createsBullets request && r.hasTab
    { now := Request.resetParagraphs span ++ styles.filter (!waits ·)
      deferred := styles.filter waits }

/-- The paragraph styles of one text. The part that is styled takes in the newline behind it. -/
def ofRange (shift : ShiftMap) (r : FormatRange) : Except Limit ParagraphPlan :=
  let start := ShiftMap.move shift r.start
  let span : Span := ⟨start, start + r.length + 1⟩
  match r.directive with
  | some d =>
    if d.stylesParagraph then return { now := ← Request.styleParagraphsByDirective d span }
    else return ofFormats r span
  | none => return ofFormats r span

/-- The paragraph styles of all texts. -/
def ofRanges (shift : ShiftMap) (ranges : List FormatRange) : Except Limit ParagraphPlan := do
  let plans ← ranges.mapM (ofRange shift)
  return { now := plans.flatMap (·.now), deferred := plans.flatMap (·.deferred) }

end ParagraphPlan

end Redline
