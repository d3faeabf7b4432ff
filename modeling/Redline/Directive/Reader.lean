import Redline.Directive.Basic
import Redline.Directive.Vocabulary
import Redline.Number.Real

/-!
# Reading directives

The content of a block is a list of tokens between spaces, with quotes around values that hold
spaces. A token is a flag, a negated flag, a key with a value, a break or a bookmark.
-/

namespace Redline.Directive

/-- What is wrong with the content of a block. -/
inductive Error where
  | unknownKey (key : Text)
  | unknownFlag (flag : Text)
  | unknownNegatedFlag (flag : Text)
deriving Repr, DecidableEq

def Error.message : Error → String
  | .unknownKey k => "unknown key: " ++ String.ofList k
  | .unknownFlag f => "unknown flag: " ++ String.ofList f
  | .unknownNegatedFlag f => "unknown negated flag: " ++ String.ofList f

/-- The tokens of a block, split at spaces and tabs outside of quotes. -/
def tokens (content : Text) : List Text :=
  go none [] content
where
  /-- The open quote, if there is one, and the token so far in reverse. -/
  go : Option Char → Text → Text → List Text
    | _, word, [] => if word.isEmpty then [] else [word.reverse]
    | some quote, word, c :: rest =>
      go (if c == quote then none else some quote) (c :: word) rest
    | none, word, c :: rest =>
      if c == '"' || c == '\'' then go (some c) (c :: word) rest
      else if c == ' ' || c == '\t' then
        if word.isEmpty then go none [] rest else word.reverse :: go none [] rest
      else go none (c :: word) rest

/-- A value without the quotes around it. -/
def unquote (value : Text) : Text :=
  match value with
  | quote :: rest =>
    if (quote == '"' || quote == '\'') && rest.getLast? == some quote then rest.dropLast else value
  | [] => value

/-- The keys that take a value. -/
inductive Key where
  | text
  | color
  | background
  | font
  | size
  | url
  | heading
  | leading
  | align
  | opacity
  | indent
  | kerning
  | width
  | height
  | spacing
  | effect
  | columns
  | check
  | contents
  | image
  | table
deriving Repr, DecidableEq

/-- Every name of every key. -/
def Key.names : List (String × Key) :=
  [("t", .text), ("text", .text), ("c", .color), ("color", .color), ("z", .background),
    ("bg", .background), ("f", .font), ("font", .font), ("s", .size), ("size", .size), ("u", .url),
    ("url", .url), ("h", .heading), ("heading", .heading), ("l", .leading), ("leading", .leading),
    ("a", .align), ("align", .align), ("o", .opacity), ("opacity", .opacity), ("n", .indent),
    ("indent", .indent), ("k", .kerning), ("kerning", .kerning), ("x", .width), ("width", .width),
    ("y", .height), ("height", .height), ("p", .spacing), ("spacing", .spacing), ("e", .effect),
    ("effect", .effect), ("cols", .columns), ("check", .check), ("toc", .contents),
    ("img", .image), ("T", .table)]

def Key.ofName? (name : Text) : Option Key :=
  (names.find? (·.1.toList == name)).map (·.2)

/-- A positive real. -/
def positiveReal? (value : Text) : Option Float :=
  (Real.read? value).filter fun x => 0 < x

/-- A whole number from a least one on. -/
def wholeFrom? (least : Int) (value : Text) : Option Nat :=
  (Whole.readLenient? value).bind fun n => if least ≤ n then some n.toNat else none

/-- The spacing after a value for it: one number for both sides, or two around a comma. A number
that cannot be read changes nothing. -/
def readSpacing (value : Text) (before : Spacing) : Spacing :=
  match Text.cut? [','] value with
  | some (above, below) =>
    ⟨(Real.read? above).getD before.above, (Real.read? below).getD before.below⟩
  | none =>
    match Real.read? value with
    | some both => ⟨both, both⟩
    | none => before

/-- The state of a checkbox by its word. -/
def checkWord? (value : Text) : Option Bool :=
  let word := lower value
  if ["y", "yes", "true", "1"].any (·.toList == word) then some true
  else if ["n", "no", "false", "0"].any (·.toList == word) then some false
  else none

/-- The directive after a key with a value. A value that cannot be read changes nothing. -/
def setValue (d : Directive) (value : Text) : Key → Directive
  | .text => { d with text := value }
  | .color => { d with color := Vocabulary.color value }
  | .background => { d with background := Vocabulary.color value }
  | .font => { d with font := value }
  | .size => { d with size := (positiveReal? value).or d.size }
  | .url => { d with url := value }
  | .heading => { d with heading := value }
  | .leading => { d with leading := (positiveReal? value).or d.leading }
  | .align => { d with align := lower value }
  | .opacity =>
    { d with opacity := ((wholeFrom? 0 value).filter (· ≤ 100)).getD d.opacity }
  | .indent => { d with indent := (wholeFrom? 0 value).or d.indent }
  | .kerning => { d with kerning := (Real.read? value).getD d.kerning }
  | .width => { d with width := (wholeFrom? 1 value).getD d.width }
  | .height => { d with height := (wholeFrom? 1 value).getD d.height }
  | .spacing => { d with spacing := some (readSpacing value (d.spacing.getD ⟨0, 0⟩)) }
  | .effect => { d with effect := value }
  | .columns => { d with columns := (wholeFrom? 1 value).getD d.columns }
  | .check => { d with check := (checkWord? value).or d.check }
  | .contents => { d with contents := some (wholeFrom? 0 value) }
  | .image => { d with image := value }
  | .table => { d with table := value }

/-- The directive after a key that stands alone; only some keys may. -/
def setBare? (d : Directive) : Key → Option Directive
  | .check => some { d with check := some false }
  | .contents => some { d with contents := some none }
  | .text => some { d with text := "$0".toList }
  | .color => some { d with color := "#000000".toList }
  | .background => some { d with background := [] }
  | .font => some { d with font := "Arial".toList }
  | .size => some { d with size := some 11 }
  | .heading => some { d with heading := ['1'] }
  | .spacing => some { d with spacing := some (d.spacing.getD ⟨0, 0⟩) }
  | .columns => some { d with columns := 1 }
  | _ => none

/-- The directive after a token without an equals sign. -/
def addBare (d : Directive) (token : Text) : Except Error Directive :=
  match Flag.ofName? token with
  | some f => .ok (d.setFlag f true)
  | none =>
    match (Key.ofName? token).bind d.setBare? with
    | some d' => .ok d'
    | none => .error (.unknownFlag token)

/-- The directive after a key and its value. A flag with a value is a text styled by the flag. -/
def addValue (d : Directive) (key value : Text) : Except Error Directive :=
  match Flag.ofName? key with
  | some f => .ok { d with inline := d.inline ++ [⟨value, f⟩] }
  | none =>
    match Key.ofName? key with
    | some k => .ok (d.setValue value k)
    | none => .error (.unknownKey key)

/-- The directive after a negated flag. -/
def addNegated (d : Directive) (name : Text) : Except Error Directive :=
  if name == ['0'] then .ok { d with keepStyle := true }
  else match Flag.ofName? name with
    | some f => .ok (d.setFlag f false)
    | none => .error (.unknownNegatedFlag name)

/-- The directive after one more token. -/
def addToken (d : Directive) (token : Text) : Except Error Directive :=
  match token with
  | ['+'] => .ok { d with pageBreak := some (d.pageBreak.getD []) }
  | '+' :: '=' :: kind => .ok { d with pageBreak := some (Vocabulary.breakCode kind) }
  | '@' :: '=' :: name => .ok { d with bookmark := unquote name }
  | '!' :: name => addNegated d name
  | _ =>
    match Text.cut? ['='] token with
    | some (key, value) => addValue d key (unquote value)
    | none => addBare d token

/-- Read the content of a block. A comment takes the rest of the block, and a leading zero clears
the style of the text. -/
def read (content : Text) : Except Error Directive :=
  let content := Text.trim content
  let (comment, content) := match Text.cut? "\"=".toList content with
    | some (before, comment) => (comment, Text.trim before)
    | none => ([], content)
  let (reset, content) := match content with
    | ['0'] => (true, [])
    | '0' :: ' ' :: rest => (true, Text.trim rest)
    | '0' :: '\t' :: rest => (true, Text.trim rest)
    | _ => (false, content)
  (tokens content).foldlM addToken { comment := comment, reset := reset }

end Redline.Directive
