import Redline.Document.Basic
import Redline.Limit
import Redline.Request.Basic

/-!
# Sections

The part of a body between section breaks that a text stands in.
-/

namespace Redline

/-- The element is a section break. -/
def Element.isBreak : Element → Bool
  | .sectionBreak _ => true
  | _ => false

namespace Document

/-- A position that must be given. -/
def given (position : Option Int) (name : String) : Except Limit Int :=
  match position with
  | some p => .ok p
  | none => .error (.missing name)

/-- Widen a section, element by element. A break before the text starts the section anew; a break
behind the text ends it, unless it has been widened before. -/
def widen (text : Span) (span : Span) : List Element → Except Limit Span
  | [] => .ok span
  | e :: rest => do
    let b := e.bounds
    let start ← if e.isBreak && b.stop ≤ text.start then given b.stop? "endIndex"
      else pure span.start
    if e.isBreak && b.start > text.stop && span.stop == text.stop + 1 then
      return ⟨start, ← given b.start? "startIndex"⟩
    let stop ← if b.stop > span.stop then given b.stop? "endIndex" else pure span.stop
    widen text ⟨start, stop⟩ rest

/-- The section of a text. It is not empty, unless the body is. -/
def sectionOf (d : Document) (text : Span) : Except Limit Span := do
  let s ← widen text ⟨1, text.stop + 1⟩ d.body
  return if s.stop ≤ s.start && !d.body.isEmpty then ⟨s.start, s.start + 1⟩ else s

end Document

end Redline
