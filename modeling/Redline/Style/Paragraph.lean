import Redline.Directive.Vocabulary
import Redline.Limit
import Redline.Style.Text

/-!
# Paragraph styles

Settings of a paragraph: its named style, its alignment, its spacing and its borders.
-/

namespace Redline

/-- A line along a paragraph. -/
structure Border where
  /-- The width in points, as a number of a request. -/
  width : Json
  padding : Float

/-- The border in a request. -/
def Border.toJson (b : Border) : Json :=
  .ofFields
    [("color", (Color.grey 0.8).toJson), ("width", TextSetting.points b.width),
      ("dashStyle", .lit "SOLID"), ("padding", TextSetting.points (.real b.padding))]

/-- One setting of a paragraph style. -/
inductive ParagraphSetting where
  | namedStyle (name : Text)
  | alignment (name : Text)
  | indent (points : Float)
  /-- The distance of lines, in percent. -/
  | lineSpacing (percent : Float)
  | spaceAbove (points : Float)
  | spaceBelow (points : Float)
  | borderBottom (b : Border)
  | borderLeft (b : Border)

namespace ParagraphSetting

/-- The name of the field of a setting. -/
def field : ParagraphSetting → String
  | .namedStyle _ => "namedStyleType"
  | .alignment _ => "alignment"
  | .indent _ => "indentStart"
  | .lineSpacing _ => "lineSpacing"
  | .spaceAbove _ => "spaceAbove"
  | .spaceBelow _ => "spaceBelow"
  | .borderBottom _ => "borderBottom"
  | .borderLeft _ => "borderLeft"

/-- The value of a setting, in a request. -/
def value : ParagraphSetting → Json
  | .namedStyle name | .alignment name => .str name
  | .indent x | .spaceAbove x | .spaceBelow x => TextSetting.points (.real x)
  | .lineSpacing x => .real x
  | .borderBottom b | .borderLeft b => b.toJson

/-- A horizontal rule: a thin line below the paragraph. -/
def rule : List ParagraphSetting :=
  [.borderBottom ⟨.int 1, 6⟩]

/-- A quotation: set in, with a line at its side. -/
def blockquote : List ParagraphSetting :=
  [.indent 36, .borderLeft ⟨.real 3, 12⟩]

/-- The first whole number that no double comes near to. -/
def indentLimit : Nat :=
  Nat.pow 2 1024 - Nat.pow 2 970

/-- The indentation of a level, thirty-six points each. -/
def indentOf (level : Nat) : Except Limit Float :=
  if level < indentLimit then .ok (Float.ofNat level * 36) else .error .doubleRange

/-- The settings that a directive stands for. -/
def ofDirective (d : Directive) : Except Limit (List ParagraphSetting) := do
  let indent ← match d.indent with
    | some level => do pure [ParagraphSetting.indent (← indentOf level)]
    | none => pure []
  return (if d.heading.isEmpty then [] else [.namedStyle (Vocabulary.heading d.heading)]) ++
    (if d.align.isEmpty then [] else [.alignment (Vocabulary.alignment d.align)]) ++ indent ++
    d.leading.toList.map (fun x => .lineSpacing (x * 100)) ++
    match d.spacing with
    | some s => [.spaceAbove s.above, .spaceBelow s.below]
    | none => []

end ParagraphSetting

end Redline
