import Redline.Directive.Block
import Redline.Format
import Redline.Limit
import Redline.Number.Layout

/-!
# Directives in words

The formats that a directive stands for, and its short form in a listing.
-/

namespace Redline.Directive

/-- The format of a flag that is on. -/
def flagFormat : Flag → Format
  | .bold => .bold
  | .italic => .italic
  | .underline => .underline
  | .strike => .strikethrough
  | .code => .code
  | .superscript => .superscript
  | .subscript => .subscript
  | .smallCaps => .smallCaps

/-- A size without a point when it is a whole number. -/
def sizeText (x : Float) : Except Limit Text :=
  if x.isInf then .error .infiniteSize
  else if Real.isWhole x then .ok (Text.ofInt (Real.truncate x))
  else .ok (Real.text x)

/-- The format of a heading. -/
def headingFormat (heading : Text) : Format :=
  match heading with
  | ['t'] => .other "title".toList
  | ['s'] => .other "subtitle".toList
  | ['0'] => .other "normal".toList
  | _ => .ofHeading heading

/-- The formats that a directive stands for. -/
def formats (d : Directive) : Except Limit (List Format) := do
  let flags := (Flag.all.filter fun f => d.flag f == some true).map flagFormat
  let valued (format : Text → Format) (value : Text) : List Format :=
    if value.isEmpty then [] else [format value]
  let size ← match d.size with
    | some x => do pure [Format.size (← sizeText x)]
    | none => pure []
  return flags ++ valued .font d.font ++ size ++ valued .color d.color ++
    valued .background d.background ++ valued .link d.url ++ valued headingFormat d.heading ++
    valued (fun align => .other ("align:".toList ++ align)) d.align

/-- A text cut to a length, with dots for what is left out. -/
def shorten (t : Text) (limit : Int) : Text :=
  if (t.length : Int) ≤ limit then t
  else Text.upTo (limit - 3) t ++ "...".toList

/-- The parts of the short form of a directive. -/
def summaryParts (d : Directive) : List Text :=
  let valued (name : String) (value : Text) : List Text :=
    if value.isEmpty then [] else [name.toList ++ value]
  let switched (f : Flag) : List Text :=
    match d.flag f with
    | some true => [[f.symbol]]
    | some false => [['!', f.symbol]]
    | none => []
  let raised (f : Flag) : List Text := if d.flag f == some true then [[f.symbol]] else []
  (if d.reset then [['0']] else []) ++
    [Flag.bold, .italic, .underline, .strike].flatMap switched ++
    [Flag.code, .superscript, .subscript, .smallCaps].flatMap raised ++
    valued "c=" d.color ++ valued "z=" d.background ++ valued "f=" d.font ++
    (match d.size with
      | some x => ["s=".toList ++ Real.rounded x]
      | none => []) ++
    (if d.url.isEmpty then [] else ["u=".toList ++ shorten d.url 20]) ++
    valued "h=" d.heading ++ valued "a=" d.align ++
    (match d.pageBreak with
      | some [] => [['+']]
      | some kind => ["+=".toList ++ kind]
      | none => [])

/-- The short form of a directive in a listing. -/
def summary (d : Directive) : Text :=
  match d.summaryParts with
  | [] => []
  | parts => '\x7b' :: Text.join [' '] parts ++ ['\x7d']

end Redline.Directive
