import Redline.Text.Basic

/-!
# Formatting directives

A directive is what a block in braces asks for: character flags, values such as colours and sizes,
paragraph settings and structural extras. Settings that are not mentioned stay at their defaults.
-/

namespace Redline

/-- The character styles that are switched by a flag. -/
inductive Flag where
  | bold
  | italic
  | underline
  | strike
  | code
  | superscript
  | subscript
  | smallCaps
deriving Repr, DecidableEq

namespace Flag

def all : List Flag :=
  [.bold, .italic, .underline, .strike, .code, .superscript, .subscript, .smallCaps]

/-- The one-character name of a flag. -/
def symbol : Flag → Char
  | .bold => 'b'
  | .italic => 'i'
  | .underline => '_'
  | .strike => '-'
  | .code => '#'
  | .superscript => '^'
  | .subscript => ','
  | .smallCaps => 'w'

/-- Every name of every flag. -/
def names : List (String × Flag) :=
  [("b", .bold), ("bold", .bold), ("i", .italic), ("italic", .italic), ("_", .underline),
    ("underline", .underline), ("-", .strike), ("strike", .strike), ("#", .code), ("code", .code),
    ("^", .superscript), ("sup", .superscript), ("super", .superscript), (",", .subscript),
    ("sub", .subscript), ("w", .smallCaps), ("smallcaps", .smallCaps)]

/-- The flag with a name. -/
def ofName? (name : Text) : Option Flag :=
  (names.find? (·.1.toList == name)).map (·.2)

end Flag

/-- Text that a block puts in its own place, with the flag it is styled by. -/
structure InlineText where
  text : Text
  flag : Flag
deriving Repr, DecidableEq

/-- The space above and below a paragraph, in points. -/
structure Spacing where
  above : Float
  below : Float
deriving Repr

/-- Everything that a block can set. -/
structure Directive where
  bold : Option Bool := none
  italic : Option Bool := none
  underline : Option Bool := none
  strike : Option Bool := none
  code : Option Bool := none
  superscript : Option Bool := none
  subscript : Option Bool := none
  smallCaps : Option Bool := none
  inline : List InlineText := []
  /-- The text that takes the place of the block. -/
  text : Text := []
  color : Text := []
  background : Text := []
  font : Text := []
  /-- The font size in points, if one is set; it is positive. -/
  size : Option Float := none
  url : Text := []
  heading : Text := []
  /-- The line spacing as a factor, if one is set; it is positive. -/
  leading : Option Float := none
  align : Text := []
  opacity : Nat := 0
  /-- The level of indentation. -/
  indent : Option Nat := none
  kerning : Float := 0
  width : Nat := 0
  height : Nat := 0
  spacing : Option Spacing := none
  effect : Text := []
  columns : Nat := 0
  /-- Clear the style of the text first, as is done without being asked for too. -/
  reset : Bool := false
  /-- Do not clear the style of the text. -/
  keepStyle : Bool := false
  /-- A break before the text, by its kind; the empty kind is a horizontal rule. -/
  pageBreak : Option Text := none
  comment : Text := []
  bookmark : Text := []
  /-- A checkbox, checked or not. -/
  check : Option Bool := none
  /-- A table of contents, with its depth if one is given. -/
  contents : Option (Option Nat) := none
  image : Text := []
  table : Text := []

namespace Directive

/-- The setting of a flag. -/
def flag (d : Directive) : Flag → Option Bool
  | .bold => d.bold
  | .italic => d.italic
  | .underline => d.underline
  | .strike => d.strike
  | .code => d.code
  | .superscript => d.superscript
  | .subscript => d.subscript
  | .smallCaps => d.smallCaps

/-- The directive with a flag set. -/
def setFlag (d : Directive) (f : Flag) (on : Bool) : Directive :=
  match f with
  | .bold => { d with bold := some on }
  | .italic => { d with italic := some on }
  | .underline => { d with underline := some on }
  | .strike => { d with strike := some on }
  | .code => { d with code := some on }
  | .superscript => { d with superscript := some on }
  | .subscript => { d with subscript := some on }
  | .smallCaps => { d with smallCaps := some on }

/-- The directive of a single flag. -/
def ofFlag (f : Flag) : Directive :=
  setFlag {} f true

/-- Some character style is set. -/
def stylesText (d : Directive) : Bool :=
  Flag.all.any (fun f => (d.flag f).isSome) || !d.color.isEmpty || !d.background.isEmpty ||
    !d.font.isEmpty || d.size.isSome || !d.url.isEmpty

/-- Some paragraph style is set. -/
def stylesParagraph (d : Directive) : Bool :=
  !d.heading.isEmpty || !d.align.isEmpty || d.indent.isSome || d.leading.isSome || d.spacing.isSome

/-- Anything at all is set. -/
def setsAnything (d : Directive) : Bool :=
  d.stylesText || d.stylesParagraph || !d.inline.isEmpty || !d.text.isEmpty || d.opacity > 0 ||
    d.kerning != 0 || d.width > 0 || d.height > 0 || !d.effect.isEmpty || d.columns > 0 ||
    d.reset || d.pageBreak.isSome || !d.comment.isEmpty || !d.bookmark.isEmpty || d.check.isSome ||
    d.contents.isSome || !d.image.isEmpty || !d.table.isEmpty

end Directive

end Redline
