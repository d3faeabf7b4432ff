import Redline.Directive.Block
import Redline.Request.Basic
import Redline.Template
import Redline.Text.Units

/-!
# Requests that style text

What formats and directives ask for, as requests on a part of the document.
-/

namespace Redline

namespace Request

/-- The request for a text style on a part of the text, unless its mask is empty. The mask names
each field once. -/
def ofStyle (style : TextStyle) (span : Span) : List Request :=
  if style.mask.isEmpty then [] else [.styleText span style.settings style.mask.eraseDups]

/-- The text style that formats ask for. -/
def styleByFormats (formats : List Format) (span : Span) : List Request :=
  ofStyle (.ofFormats formats) span

/-- The list style of a format. -/
def presetOf? : Format → Option Preset
  | .bullet => some .disc
  | .checkbox => some .checkbox
  | .numbered => some .numbered
  | _ => none

/-- The level of a heading format. -/
def levelOf? : Format → Option Char
  | .heading level => some level
  | _ => none

/-- The last value that a list has. -/
private def lastSome? {α β : Type} (f : α → Option β) (xs : List α) : Option β :=
  xs.reverse.findSome? f

/-- The paragraph styles that formats ask for: a heading, a list item, a quotation. -/
def styleParagraphsByFormats (formats : List Format) (span : Span) : List Request :=
  ((lastSome? levelOf? formats).map fun level =>
      nameStyle span ("HEADING_".toList ++ [level])).toList ++
    ((lastSome? presetOf? formats).map (.createBullets span)).toList ++
    (if formats.contains .blockquote then
      [.styleParagraphs span ParagraphSetting.blockquote]
    else [])

/-- Take paragraphs back to plain text without bullets. -/
def resetParagraphs (span : Span) : List Request :=
  [nameStyle span "NORMAL_TEXT".toList, .deleteBullets span]

/-- The fields that are cleared before a directive is applied. -/
def clearedFields : List TextField :=
  [.bold, .italic, .underline, .strikethrough, .smallCaps, .baseline, .foreground, .background,
    .size, .font, .link]

/-- The request that clears the old style of a part of the text. -/
def clearing (span : Span) : Request :=
  .styleText span [] clearedFields

/-- The text style that a directive asks for. The old style is cleared first, unless the directive
keeps it. -/
def styleByDirective (d : Directive) (span : Span) : List Request :=
  if d.reset || !d.keepStyle then
    clearing span :: if d.stylesText then ofStyle (.ofDirective d) span else []
  else ofStyle (.ofDirective d) span

/-- The paragraph style that a directive asks for. -/
def styleParagraphsByDirective (d : Directive) (span : Span) : Except Limit (List Request) := do
  match ← ParagraphSetting.ofDirective d with
  | [] => return []
  | settings => return [.styleParagraphs span settings]

/-- The position of a place of the template in the inserted text. -/
def offsetOf (m : Option Match) (template : Text) (place : Nat) :
    Except TooManyDigits Nat := do
  return (← Template.render m (template.take place)).units

/-- The style of the text that one block has put in its place. -/
def styleInserted (base : Int) (template : Text) (m : Option Match) (b : Block) :
    Except TooManyDigits (List Request) := do
  match b.extent with
  | .inserted stop =>
    let start ← offsetOf m template b.start
    let stop ← offsetOf m template stop
    return if start < stop then styleByDirective b.directive ⟨base + start, base + stop⟩ else []
  | _ => return []

/-- The styles of the texts that blocks have put in their places. Places of the template are carried
over to the text that is inserted at a position. -/
def styleBlocks (blocks : List Block) (base : Int) (template : Text) (m : Option Match) :
    Except TooManyDigits (List Request) := do
  return (← blocks.mapM (styleInserted base template m)).flatten

/-- The break that a directive asks for, at a position. -/
def breakAt (d : Directive) (index : Int) : List Request :=
  match d.pageBreak with
  | none => []
  | some ['p'] => [.insertPageBreak index]
  | some ['c'] => [insert index ['\x0b']]
  | some ['s'] => [.insertSectionBreak index "NEXT_PAGE".toList]
  | some _ => [insert index ['\n'], rule ⟨index, index + 1⟩]

end Request

namespace Directive

/-- The directive asks for more than text and paragraph styles. -/
def isStructural (d : Directive) : Bool :=
  d.columns > 0 || d.check.isSome || d.contents.isSome || !d.comment.isEmpty ||
    !d.bookmark.isEmpty || Chip.isAddress d.url

end Directive

/-- The requests for the structural parts of a directive. -/
structure Extras where
  columns : List Request := []
  bullets : List Request := []
  anchors : List Request := []
  chips : List Request := []

/-- The structural parts of a directive for a text and the section around it. -/
def Extras.ofDirective (d : Directive) (text section_ : Span) : Extras :=
  { columns := if d.columns > 0 then [.setColumns section_ d.columns] else []
    bullets := if d.check.isSome then [.createBullets ⟨text.start, text.stop + 1⟩ .checkbox] else []
    anchors := if d.bookmark.isEmpty then [] else [.nameRange d.bookmark text]
    chips :=
      let email := Chip.personOf d.url
      if email.isEmpty then [] else [.insertPerson text.start email] }

end Redline
