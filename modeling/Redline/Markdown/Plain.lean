import Redline.Directive.Block
import Redline.Markdown.Basic
import Redline.Markdown.Image

/-!
# Plain replacements

A replacement that is plain text can be left to the service, which replaces every occurrence at
once. Anything that looks like a formatting block, an image, markdown, a newline or a reference to
a group is not plain.
-/

namespace Redline.Markdown

/-- Pieces of text that may be markdown. -/
def marks : List String :=
  ["**", "*", "~~", "`", "# ", "## ", "### ", "#### ", "##### ", "###### ", "- ", "+ ", "> ", "[^"]

/-- A dollar stands before a group number or an opening brace. -/
def mentionsGroup : Text → Bool
  | '$' :: c :: rest => c == '\x7b' || ('1' ≤ c && c ≤ '9') || mentionsGroup (c :: rest)
  | _ :: rest => mentionsGroup rest
  | [] => false

/-- The replacement is plain text. -/
def isPlain (t : Text) : Bool :=
  !(Block.occursIn t || Text.startsWith "![".toList t || (ImageSpec.shortAddress? t).isSome ||
    marks.any (fun mark => Text.occursIn mark.toList t) || isRule t || startsNumbered t ||
    Text.occursIn "\\n".toList t || mentionsGroup t || Text.occursIn "](".toList t)

end Redline.Markdown
