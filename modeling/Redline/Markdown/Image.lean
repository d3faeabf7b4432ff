import Redline.Number.Whole

/-!
# Images in replacements

An image is written as an alternative text in brackets, an address and an optional caption in
parentheses, and an optional size in braces. A short form has only an address.
-/

namespace Redline

/-- An image to insert. -/
structure ImageSpec where
  url : Text
  alt : Text := []
  caption : Text := []
  /-- The width in points; zero leaves it open. -/
  width : Int := 0
  /-- The height in points; zero leaves it open. -/
  height : Int := 0
deriving Repr, DecidableEq

namespace ImageSpec

/-- The text without an ending. -/
def withoutEnding (ending t : Text) : Text :=
  if Text.endsWith ending t then t.take (t.length - ending.length) else t

/-- A size without the unit that may follow it. -/
def withoutUnit (t : Text) : Text :=
  withoutEnding ['%'] (withoutEnding "px".toList t)

/-- The image after one setting of its size. The long names allow a unit. -/
def addSetting (spec : ImageSpec) (setting : Text) : ImageSpec :=
  let (key, value) := (Text.cut? ['='] setting).getD (setting, [])
  if key == "width".toList then
    { spec with width := (Whole.readLenient? (withoutUnit value)).getD spec.width }
  else if key == "w".toList then
    { spec with width := (Whole.readLenient? value).getD spec.width }
  else if key == "height".toList then
    { spec with height := (Whole.readLenient? (withoutUnit value)).getD spec.height }
  else if key == "h".toList then
    { spec with height := (Whole.readLenient? value).getD spec.height }
  else spec

/-- A caption in double quotes at the start of a text, and the rest. -/
def splitCaption (t : Text) : Text × Text :=
  match t with
  | '"' :: rest => (Text.cut? ['"'] rest).getD ([], t)
  | _ => ([], t)

/-- The size in braces at the start of a text. -/
def addSize (spec : ImageSpec) (t : Text) : ImageSpec :=
  match t with
  | '\x7b' :: rest =>
    match Text.cut? ['\x7d'] rest with
    | some (inner, _) => (Text.words inner).foldl addSetting spec
    | none => spec
  | _ => spec

/-- A character that ends the address. -/
def endsAddress (c : Char) : Bool :=
  c == '"' || c == ')' || c == '\x7b'

/-- Read an image in its full form. -/
def read? (t : Text) : Option ImageSpec := do
  let _ ← Text.after? "![".toList t
  let (before, rest) ← Text.cut? "](".toList t
  let (address, rest) := Text.breakAt endsAddress rest
  if rest.isEmpty then failure
  let (caption, rest) := splitCaption rest
  let rest := match rest with
    | ')' :: rest => rest
    | rest => rest
  some (addSize { url := Text.trim address, alt := before.drop 2, caption } rest)

/-- The text starts with a web address. -/
def startsWithAddress (t : Text) : Bool :=
  Text.startsWith "http://".toList t || Text.startsWith "https://".toList t

/-- The web address that a short form consists of. -/
def shortAddress? (t : Text) : Option Text :=
  match t with
  | '!' :: '(' :: rest =>
    if rest.getLast? == some ')' && startsWithAddress rest.dropLast then some rest.dropLast
    else none
  | _ => none

/-- Read an image in its short form. -/
def readShort? (t : Text) : Option ImageSpec :=
  (shortAddress? t).map fun url => { url }

end ImageSpec

end Redline
