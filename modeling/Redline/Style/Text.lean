import Redline.Directive.Basic
import Redline.Format
import Redline.Number.Real
import Redline.Style.Color
import Redline.Style.Link

/-!
# Text styles

A text style is made of settings, one for each field that it is about, together with a mask that
names these fields. Formats and directives make both side by side; a field that is set several times
keeps the last setting.
-/

namespace Redline

/-- The fields of a text style. -/
inductive TextField where
  | bold
  | italic
  | underline
  | strikethrough
  | smallCaps
  | baseline
  | foreground
  | background
  | size
  | font
  | link
deriving Repr, DecidableEq

/-- The name of a field in a request. -/
def TextField.name : TextField → String
  | .bold => "bold"
  | .italic => "italic"
  | .underline => "underline"
  | .strikethrough => "strikethrough"
  | .smallCaps => "smallCaps"
  | .baseline => "baselineOffset"
  | .foreground => "foregroundColor"
  | .background => "backgroundColor"
  | .size => "fontSize"
  | .font => "weightedFontFamily"
  | .link => "link"

/-- Where a character stands on its line. -/
inductive Baseline where
  | raised
  | lowered
  | normal
deriving Repr, DecidableEq

def Baseline.name : Baseline → String
  | .raised => "SUPERSCRIPT"
  | .lowered => "SUBSCRIPT"
  | .normal => "NONE"

/-- One setting of a text style. -/
inductive TextSetting where
  | bold (on : Bool)
  | italic (on : Bool)
  | underline (on : Bool)
  | strikethrough (on : Bool)
  | smallCaps (on : Bool)
  | baseline (b : Baseline)
  | foreground (c : Color)
  | background (c : Color)
  | size (points : Float)
  | font (family : Text)
  | link (target : Link)

namespace TextSetting

/-- The field of a setting. -/
def field : TextSetting → TextField
  | .bold _ => .bold
  | .italic _ => .italic
  | .underline _ => .underline
  | .strikethrough _ => .strikethrough
  | .smallCaps _ => .smallCaps
  | .baseline _ => .baseline
  | .foreground _ => .foreground
  | .background _ => .background
  | .size _ => .size
  | .font _ => .font
  | .link _ => .link

/-- A length in points, in a request. -/
def points (magnitude : Json) : Json :=
  .ofFields [("magnitude", magnitude), ("unit", .lit "PT")]

/-- The value of a setting, in a request. -/
def value : TextSetting → Json
  | .bold on | .italic on | .underline on | .strikethrough on | .smallCaps on => .bool on
  | .baseline b => .lit b.name
  | .foreground c | .background c => c.toJson
  | .size x => points (.real x)
  | .font family => .ofFields [("fontFamily", .str family)]
  | .link target => target.toJson

end TextSetting

/-- A text style in the making. The settings are kept one for each field, in the order in which the
fields were first set. The mask is kept apart from them: it names a field each time it is set. -/
structure TextStyle where
  settings : List TextSetting := []
  mask : List TextField := []

namespace TextStyle

/-- Put a setting in the place of the one for the same field, or behind all of them. -/
def put (s : TextSetting) : List TextSetting → List TextSetting
  | [] => [s]
  | t :: rest => if t.field == s.field then s :: rest else t :: put s rest

/-- The style with one more setting. The mask stays as it is. -/
def set (style : TextStyle) (s : TextSetting) : TextStyle :=
  { style with settings := put s style.settings }

/-- The style with more names in its mask. -/
def name (style : TextStyle) (fields : List TextField) : TextStyle :=
  { style with mask := style.mask ++ fields }

/-- Make a setting, if there is one, and name a field. -/
def add (style : TextStyle) (setting : Option TextSetting) (field : TextField) : TextStyle :=
  match setting with
  | some s => (style.set s).name [field]
  | none => style

/-- The style of code: a fixed font on a light ground. -/
def addCode (style : TextStyle) : TextStyle :=
  ((style.set (.font "Courier New".toList)).set (.background (.grey 0.95))).name
    [.font, .background]

/-- The style with what a format stands for. -/
def addFormat (style : TextStyle) : Format → TextStyle
  | .bold => style.add (some (.bold true)) .bold
  | .italic => style.add (some (.italic true)) .italic
  | .strikethrough => style.add (some (.strikethrough true)) .strikethrough
  | .underline => style.add (some (.underline true)) .underline
  | .code => style.addCode
  | .superscript => style.add (some (.baseline .raised)) .baseline
  | .subscript => style.add (some (.baseline .lowered)) .baseline
  | .smallCaps => style.add (some (.smallCaps true)) .smallCaps
  | .link url => style.add ((Link.ofAddress? url).map .link) .link
  | .font family => style.add (some (.font family)) .font
  | .size written => style.add (((Real.read? written).filter (0 < ·)).map .size) .size
  | .color written => style.add ((Color.read? written).map .foreground) .foreground
  | .background written => style.add ((Color.read? written).map .background) .background
  | _ => style

/-- The style that formats stand for, one after another. -/
def ofFormats (formats : List Format) : TextStyle :=
  formats.foldl addFormat {}

/-- The style with raised or lowered text. Text that is neither, where both are switched off, goes
back to the line. -/
def addBaseline (style : TextStyle) (raised lowered : Option Bool) : TextStyle :=
  style
    |>.add (if raised == some true then some (.baseline .raised) else none) .baseline
    |>.add (if lowered == some true then some (.baseline .lowered) else none) .baseline
    |>.add
      (if raised == some false && lowered == some false then some (.baseline .normal) else none)
      .baseline

/-- The style with the flags of a directive. -/
def addFlags (style : TextStyle) (d : Directive) : TextStyle :=
  let switched := style
    |>.add (d.bold.map .bold) .bold
    |>.add (d.italic.map .italic) .italic
    |>.add (d.underline.map .underline) .underline
    |>.add (d.strike.map .strikethrough) .strikethrough
    |>.add (d.smallCaps.map .smallCaps) .smallCaps
    |>.addBaseline d.superscript d.subscript
  if d.code == some true then switched.addCode else switched

/-- The style that a directive stands for. -/
def ofDirective (d : Directive) : TextStyle :=
  ({} : TextStyle)
    |>.addFlags d
    |>.add (if d.font.isEmpty then none else some (.font d.font)) .font
    |>.add (d.size.map .size) .size
    |>.add ((Color.read? d.color).map .foreground) .foreground
    |>.add ((Color.read? d.background).map .background) .background
    |>.add (if d.url.isEmpty then none else (Link.ofAddress? d.url).map .link) .link

end TextStyle

end Redline
