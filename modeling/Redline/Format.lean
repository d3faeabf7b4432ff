import Redline.Text.Basic

/-!
# Formats

What is to be done to a piece of inserted text, besides inserting it. Each format has a name; some
carry a value after the name. A name that stands for no format is kept and has no effect.
-/

namespace Redline

/-- A format of inserted text. -/
inductive Format where
  | bold
  | italic
  | underline
  | strikethrough
  | code
  | superscript
  | subscript
  | smallCaps
  | link (url : Text)
  | font (family : Text)
  /-- A font size as it is written. -/
  | size (written : Text)
  /-- A text colour as it is written. -/
  | color (written : Text)
  /-- A background colour as it is written. -/
  | background (written : Text)
  /-- A heading, by the digit of its level. -/
  | heading (level : Char)
  | bullet
  | numbered
  | checkbox
  | blockquote
  | codeBlock
  | footnote
  | rule
  | other (name : Text)
deriving Repr, DecidableEq

namespace Format

/-- The names of the formats without a value. -/
def plainNames : List (String × Format) :=
  [("bold", .bold), ("italic", .italic), ("underline", .underline),
    ("strikethrough", .strikethrough), ("code", .code), ("superscript", .superscript),
    ("subscript", .subscript), ("smallcaps", .smallCaps), ("bullet", .bullet),
    ("numbered", .numbered), ("checkbox", .checkbox), ("blockquote", .blockquote),
    ("codeblock", .codeBlock), ("footnote", .footnote), ("hrule", .rule)]

/-- The names of the formats with a value. -/
def valuedNames : List (String × (Text → Format)) :=
  [("link:", .link), ("font:", .font), ("size:", .size), ("color:", .color), ("bg:", .background)]

/-- A digit that names the level of a heading. -/
def isLevel (c : Char) : Bool :=
  '1' ≤ c && c ≤ '6'

/-- The format of a heading by what follows the word. -/
def ofHeading (level : Text) : Format :=
  match level with
  | [c] => if isLevel c then .heading c else .other ("heading".toList ++ level)
  | _ => .other ("heading".toList ++ level)

/-- The format with a name. -/
def ofText (t : Text) : Format :=
  match plainNames.find? (·.1.toList == t) with
  | some (_, f) => f
  | none =>
    match valuedNames.findSome? fun (name, f) => (Text.after? name.toList t).map f with
    | some f => f
    | none =>
      match Text.after? "heading".toList t with
      | some level => ofHeading level
      | none => .other t

/-- The name of a format, with its value. -/
def text : Format → Text
  | .bold => "bold".toList
  | .italic => "italic".toList
  | .underline => "underline".toList
  | .strikethrough => "strikethrough".toList
  | .code => "code".toList
  | .superscript => "superscript".toList
  | .subscript => "subscript".toList
  | .smallCaps => "smallcaps".toList
  | .link url => "link:".toList ++ url
  | .font family => "font:".toList ++ family
  | .size written => "size:".toList ++ written
  | .color written => "color:".toList ++ written
  | .background written => "bg:".toList ++ written
  | .heading level => "heading".toList ++ [level]
  | .bullet => "bullet".toList
  | .numbered => "numbered".toList
  | .checkbox => "checkbox".toList
  | .blockquote => "blockquote".toList
  | .codeBlock => "codeblock".toList
  | .footnote => "footnote".toList
  | .rule => "hrule".toList
  | .other name => name

/-- The format restyles its whole paragraph. -/
def isParagraph : Format → Bool
  | .heading _ | .bullet | .numbered | .checkbox | .blockquote => true
  | _ => false

end Format

end Redline
