import Redline.Directive.Summary
import Redline.Document.Basic
import Redline.Expression.Basic
import Redline.Markdown.Basic
import Redline.Markdown.Image
import Redline.Template

/-!
# Matches in a document

Where the pattern of an expression is found in the text of a document, and what is written in the
place of each match.
-/

namespace Redline

/-- What is written in the place of a match. -/
inductive Written where
  | image (spec : ImageSpec)
  /-- Text with formats, and the directive that they come from, if there is one. -/
  | text (text : Text) (formats : List Format) (directive : Option Directive)

/-- A match in a document, by its positions in index units. -/
structure DocMatch where
  start : Int
  stop : Int
  found : Match
  written : Written

namespace Written

/-- The text that is written; an image has none. -/
def newText : Written → Text
  | .image _ => []
  | .text t _ _ => t

/-- The formats of the text that is written. -/
def formats : Written → List Format
  | .image _ => []
  | .text _ fs _ => fs

/-- The image that is written. -/
def image? : Written → Option ImageSpec
  | .image spec => some spec
  | .text _ _ _ => none

/-- The directive that the formats come from. -/
def directive? : Written → Option Directive
  | .image _ => none
  | .text _ _ d => d

/-- The image that a replacement writes: in its own form, or by its directive. -/
def imageOf? (expanded : Text) (directive : Option Directive) : Option ImageSpec :=
  (ImageSpec.read? expanded).or <| directive.bind fun d =>
    if d.image.isEmpty then none else some { url := d.image, width := d.width, height := d.height }

/-- What an expression writes in the place of a match: an image, text formatted by a directive, or
markdown. -/
def ofMatch (e : Expression) (m : Match) : Except Limit Written := do
  let expanded ← (Template.expand (some m) e.replacement).mapError .digits
  match imageOf? expanded e.directive? with
  | some spec => return .image spec
  | none =>
    match e.directive? with
    | some d =>
      let rendered ← (Template.render (some m) e.replacement).mapError .digits
      return .text rendered (← d.formats) (some d)
    | none =>
      let (plain, formats) := Markdown.read expanded
      return .text plain formats none

end Written

namespace DocMatch

/-- The match becomes a footnote. -/
def isFootnote (m : DocMatch) : Bool :=
  m.written.formats.contains .footnote

/-- The match becomes an image. -/
def isImage (m : DocMatch) : Bool :=
  m.written.image?.isSome

/-- The match becomes text of the body. -/
def isRegular (m : DocMatch) : Bool :=
  !m.isImage && !m.isFootnote

/-- Place a match of a run in the document. -/
def place (e : Expression) (run : Document.Run) (m : Match) : Except Limit DocMatch := do
  return {
    start := run.start + Text.units (run.text.take m.start)
    stop := run.start + Text.units (run.text.take m.stop)
    found := m
    written := ← Written.ofMatch e m }

/-- The matches of a pattern in the runs of a document, in order. -/
def located (d : Document) (pattern : Pattern) : List (Document.Run × Match) :=
  d.runs.flatMap fun run => (pattern.findAll run.text).map fun m => (run, m)

/-- The matches that an expression is about: all of them, the first one, or one by its number. -/
def find (d : Document) (pattern : Pattern) (e : Expression) : Except Limit (List DocMatch) := do
  let found := located d pattern
  let firstOnly := !e.isGlobal && e.nth == 0
  let placed ← (if firstOnly then found.take 1 else found).mapM fun (run, m) => place e run m
  return if e.nth > 0 then (placed[e.nth - 1]?).toList else placed

end DocMatch

end Redline
